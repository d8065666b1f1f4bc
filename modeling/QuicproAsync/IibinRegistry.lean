import QuicproAsync.IibinDecoding

/-!
# The registries are well founded

What the definition calls establish and keep. A compiled field has a known type, the
wire type of that type, and references that resolve; a compiled schema lists its
fields in strictly ascending tag order and finds each of them by its tag; and every
registered schema is well formed already with respect to the schemas registered
before it. From the last point the recursion of encoder and decoder is bounded by the
number of registered schemas, and no reference is ever found missing.
-/

namespace QuicproAsync.Iibin

open Php Fallible ScanLoop OrderedMap

variable {field : FieldDef} {options entries : HashTable} {type : FieldType} {entry : Key × Zval}
  {ok : Bytes → Prop}

/-! ### Compiled fields -/

structure FieldDef.WellTyped (registry : Registry) (field : FieldDef) : Prop where
  known : field.type ≠ .unknown
  wire : field.wireType = calculateFieldWireType field.type field.flags.packed
  packed : field.flags.packed = true → field.flags.repeated = true ∧ isPackable field.type = true
  nested : field.type = .message → ∃ name schema, field.messageTypeNameIfNested = some name ∧
    NulFree name ∧ getCompiledIibinSchemaInternal registry name = some schema
  enum : field.type = .enum → ∃ name enumDef, field.enumTypeNameIfEnum = some name ∧
    NulFree name ∧ getCompiledIibinEnumInternal registry name = some enumDef

variable {registry : Registry}

theorem FieldDef.WellTyped.unpacked_of_singular (htyped : field.WellTyped registry)
    (hsingular : field.flags.repeated = false) :
    field.flags.packed = false := by
  cases hpacked : field.flags.packed with
  | false => rfl
  | true => rw [(htyped.packed hpacked).1] at hsingular; cases hsingular

variable {schemaName fieldName : Bytes}

theorem parseTag_ok {tag : BitVec 32} (hok : parseTag schemaName fieldName options = .ok tag) :
    ∃ n, option options "tag" = some (.long n) ∧ 0 < n.toInt ∧ tag = n.setWidth 32 := by
  unfold parseTag at hok
  split at hok
  · rename_i n hoption
    split at hok
    · cases hok
    · rename_i hpos
      cases hok
      exact ⟨n, hoption, Int.not_le.mp hpos, rfl⟩
  · cases hok

variable {referenced : Option Bytes}

/-- The type string itself never denotes a message or an enum; a name it refers to is a
    C string. -/
theorem parsePhpFieldTypeDetails_ok {typeStr : Bytes} {isRepeated : Bool}
    (hok : parsePhpFieldTypeDetails typeStr = some (type, isRepeated, referenced)) :
    type ≠ .message ∧ type ≠ .enum ∧ ∀ name, referenced = some name → NulFree name := by
  have hprimitive : ∀ entry ∈ primitiveNames, entry.2 ≠ .message ∧ entry.2 ≠ .enum := by decide
  unfold parsePhpFieldTypeDetails at hok
  simp only at hok
  generalize (if strncmpEq 9 typeStr (ascii "repeated_") = true then _ else _) = typeStrVal at hok
  split at hok
  · cases hok
  · split at hok
    · cases hok
    · split at hok
      · rename_i name found hfind
        cases hok
        have htype := hprimitive _ (List.mem_of_find?_eq_some hfind)
        exact ⟨htype.1, htype.2, by simp⟩
      · cases hok
        refine ⟨by decide, by decide, ?_⟩
        rintro _ ⟨⟩
        exact nulFree_cstr typeStrVal

theorem parseType_ok {isRepeated : Bool}
    (hok : parseType schemaName fieldName options = .ok (type, isRepeated, referenced)) :
    type ≠ .message ∧ type ≠ .enum ∧ ∀ name, referenced = some name → NulFree name := by
  unfold parseType at hok
  split at hok
  · split at hok
    · rename_i details hdetails
      cases hok
      exact parsePhpFieldTypeDetails_ok hdetails
    · cases hok
  · cases hok

theorem resolveType_ok {base : FieldType} {messageName enumName : Option Bytes}
    (hbase : base ≠ .message ∧ base ≠ .enum ∧ ∀ name, referenced = some name → NulFree name)
    (hok : resolveType registry schemaName fieldName base referenced =
      .ok (type, messageName, enumName)) :
    (type = .message → ∃ name schema, messageName = some name ∧ NulFree name ∧
      registry.Has name schema) ∧
    (type = .enum → ∃ name enumDef, enumName = some name ∧ NulFree name ∧
      getCompiledIibinEnumInternal registry name = some enumDef) := by
  unfold resolveType at hok
  split at hok
  · cases hok
  · rename_i name
    split at hok
    · rename_i hschema
      cases hok
      obtain ⟨schema, hschema⟩ := Option.isSome_iff_exists.mp hschema
      exact ⟨fun _ => ⟨name, schema, rfl, hbase.2.2 name rfl, hschema⟩, nofun⟩
    · split at hok
      · rename_i henum
        cases hok
        obtain ⟨enumDef, henum⟩ := Option.isSome_iff_exists.mp henum
        exact ⟨nofun, fun _ => ⟨name, enumDef, rfl, hbase.2.2 name rfl, henum⟩⟩
      · cases hok
  · cases hok
    exact ⟨fun htype => absurd htype hbase.1, fun htype => absurd htype hbase.2.1⟩

/-- What `parse_php_field_options` accepts. -/
theorem parsePhpFieldOptions_ok
    (hok : parsePhpFieldOptions registry schemaName fieldName options = .ok field) :
    field.nameInPhp = fieldName ∧
      (∃ n, option options "tag" = some (.long n) ∧ 0 < n.toInt ∧ field.tag = n.setWidth 32) ∧
      field.WellTyped registry := by
  obtain ⟨tag, htag, hok⟩ := bind_eq_ok.mp hok
  obtain ⟨⟨base, isRepeated, referenced⟩, htype, hok⟩ := bind_eq_ok.mp hok
  obtain ⟨⟨type, messageName, enumName⟩, hresolve, hok⟩ := bind_eq_ok.mp hok
  simp only at hok
  split at hok
  · cases hok
  · rename_i hwire
    obtain ⟨default, hdefault, hok⟩ := bind_eq_ok.mp hok
    cases hok
    obtain ⟨hnested, henum⟩ := resolveType_ok (parseType_ok htype) hresolve
    refine ⟨rfl, parseTag_ok htag, ?_, rfl, ?_, hnested, henum⟩
    · rintro rfl
      exact hwire (by simp [usePacked, isPackable, FieldType.code, calculateFieldWireType])
    · intro hpacked
      simp only [usePacked, Bool.and_eq_true] at hpacked
      exact hpacked.1

/-! ### Compiled schemas -/

/-- The entry of the schema array declares this field. -/
def Declares (registry : Registry) (schemaName : Bytes) (entry : Key × Zval) (field : FieldDef) :
    Prop :=
  ∃ name options, entry = (.str name, .array options) ∧
    parsePhpFieldOptions registry schemaName (cstr name) options = .ok field

/-- What the loop of `quicpro_iibin_define_schema` has built from the entries so far. -/
structure Built (registry : Registry) (schemaName : Bytes) (entries : HashTable)
    (built : List (BitVec 32 × FieldDef) × List FieldDef) : Prop where
  declared : List.Forall₂ (Declares registry schemaName) entries built.2
  distinct : (built.2.map FieldDef.tag).Nodup
  byTag : built.1 = built.2.map fun field => (field.tag, field)

variable {built : List (BitVec 32 × FieldDef) × List FieldDef}

theorem addSchemaField_built {before : HashTable}
    (hbuilt : Built registry schemaName before built) :
    Ends (fun _ => True) (Built registry schemaName (before ++ [entry]))
      (addSchemaField registry schemaName built entry) := by
  unfold addSchemaField
  split
  · rename_i name options
    rcases hparse : parsePhpFieldOptions registry schemaName (cstr name) options with _ | field
    · trivial
    · simp only [bind, Except.bind]
      split
      · trivial
      · rename_i hfresh
        have hkeys : keys built.1 = built.2.map FieldDef.tag := by
          rw [hbuilt.byTag]
          simp [keys, Function.comp_def]
        have hnot : field.tag ∉ built.2.map FieldDef.tag := by
          rw [← hkeys]
          apply lookup_eq_none_iff_not_mem_keys.mp
          exact Option.not_isSome_iff_eq_none.mp hfresh
        refine ⟨List.rel_append hbuilt.declared (.cons ⟨name, options, rfl, hparse⟩ .nil), ?_, ?_⟩
        · rw [List.map_append, List.nodup_append]
          refine ⟨hbuilt.distinct, by simp, ?_⟩
          rintro tag htag _ hlast rfl
          simp only [List.map_cons, List.map_nil, List.mem_singleton] at hlast
          exact hnot (hlast ▸ htag)
        · simp [hbuilt.byTag]
  · trivial

variable {schema : CompiledSchema}

theorem compileSchema_ok {fields : HashTable}
    (hok : compileSchema registry schemaName fields = .ok schema) :
    ∃ built, Built registry (cstr schemaName) fields built ∧
      schema = ⟨cstr schemaName, built.1, built.2.insertionSort tagLe⟩ := by
  obtain ⟨built, hbuilt, hok⟩ := bind_eq_ok.mp hok
  cases hok
  have hempty : Built registry (cstr schemaName) [] ([], []) := ⟨.nil, List.nodup_nil, rfl⟩
  have hends := Ends.foldlM (Built registry (cstr schemaName))
    (fun before entry built hinv => addSchemaField_built hinv) fields hempty
  exact ⟨built, hends.ok hbuilt, rfl⟩

theorem Built.declaring (hbuilt : Built registry schemaName entries built)
    (hfield : field ∈ built.2) :
    ∃ entry ∈ entries, Declares registry schemaName entry field := by
  obtain ⟨entry, hentry, hdeclares⟩ := exists_related hbuilt.declared.flip hfield
  exact ⟨entry, hentry, hdeclares⟩

theorem Built.declared_of_mem (hbuilt : Built registry schemaName entries built)
    (hentry : entry ∈ entries) : ∃ field ∈ built.2, Declares registry schemaName entry field :=
  exists_related hbuilt.declared hentry

structure CompiledSchema.WellFormed (registry : Registry) (schema : CompiledSchema) : Prop where
  fields : ∀ field ∈ schema.orderedFields, field.WellTyped registry
  sorted : schema.orderedFields.Pairwise fun left right => left.tag.toNat < right.tag.toNat
  byTag : ∀ tag field, schema.fieldsByTag.lookup tag = some field ↔
    field ∈ schema.orderedFields ∧ field.tag = tag

theorem Declares.wellTyped (hdeclares : Declares registry schemaName entry field) :
    field.WellTyped registry := by
  obtain ⟨name, options, -, hparse⟩ := hdeclares
  exact (parsePhpFieldOptions_ok hparse).2.2

instance : Std.Total tagLe := ⟨fun left right => Nat.le_total left.tag.toNat right.tag.toNat⟩

instance : IsTrans FieldDef tagLe := ⟨fun _ _ _ => Nat.le_trans⟩

theorem sorted_of_distinct {fields : List FieldDef} (hdistinct : (fields.map FieldDef.tag).Nodup) :
    (fields.insertionSort tagLe).Pairwise fun left right => left.tag.toNat < right.tag.toNat := by
  have hle := List.pairwise_insertionSort tagLe fields
  have hne : (fields.insertionSort tagLe).Pairwise fun left right => left.tag ≠ right.tag := by
    have hperm := (List.perm_insertionSort tagLe fields).map FieldDef.tag
    exact List.pairwise_map.mp (hperm.nodup_iff.mpr hdistinct)
  refine (hle.and hne).imp ?_
  rintro left right ⟨hle, hne⟩
  exact Nat.lt_of_le_of_ne hle fun heq => hne (BitVec.eq_of_toNat_eq heq)

theorem compileSchema_wellFormed {fields : HashTable}
    (hok : compileSchema registry schemaName fields = .ok schema) :
    schema.WellFormed registry := by
  obtain ⟨built, hbuilt, rfl⟩ := compileSchema_ok hok
  have hkeys : (keys built.1).Nodup := by
    rw [hbuilt.byTag]
    simpa [keys, Function.comp_def] using hbuilt.distinct
  refine ⟨?_, sorted_of_distinct hbuilt.distinct, ?_⟩
  · intro field hfield
    have hmem := (List.mem_insertionSort tagLe).mp hfield
    obtain ⟨entry, -, hdeclares⟩ := hbuilt.declaring hmem
    exact hdeclares.wellTyped
  · intro tag field
    simp only [List.mem_insertionSort]
    constructor
    · intro hlookup
      have hmem := mem_of_lookup_eq_some hlookup
      rw [hbuilt.byTag] at hmem
      obtain ⟨other, hother, heq⟩ := List.mem_map.mp hmem
      cases heq
      exact ⟨hother, rfl⟩
    · rintro ⟨hfield, rfl⟩
      apply lookup_of_mem hkeys
      rw [hbuilt.byTag]
      exact List.mem_map.mpr ⟨field, hfield, rfl⟩

theorem CompiledSchema.WellFormed.eq_of_tag (hformed : schema.WellFormed registry)
    {left right : FieldDef} (hleft : left ∈ schema.orderedFields)
    (hright : right ∈ schema.orderedFields) (htag : left.tag = right.tag) : left = right := by
  have hfound := (hformed.byTag right.tag left).mpr ⟨hleft, htag⟩
  rw [(hformed.byTag right.tag right).mpr ⟨hright, rfl⟩] at hfound
  exact (Option.some.inj hfound).symm

/-! ### Registries -/

/-- Growing a registry keeps what it knows. -/
structure Registry.Extends (small large : Registry) : Prop where
  schemas : ∀ name schema, getCompiledIibinSchemaInternal small name = some schema →
    getCompiledIibinSchemaInternal large name = some schema
  enums : ∀ name enumDef, getCompiledIibinEnumInternal small name = some enumDef →
    getCompiledIibinEnumInternal large name = some enumDef

theorem lookup_append_of_some {key : Bytes} {value : α} {left : List (Bytes × α)}
    (hlookup : left.lookup key = some value) (right : List (Bytes × α)) :
    (left ++ right).lookup key = some value := by
  rw [List.lookup_append, hlookup, Option.some_or]

theorem Registry.extends_append (registry : Registry) (schemas : List (Bytes × CompiledSchema))
    (enums : List (Bytes × CompiledEnum)) :
    registry.Extends ⟨registry.schemas ++ schemas, registry.enums ++ enums,
      registry.initialized⟩ := by
  constructor
  · intro name schema hfound
    unfold getCompiledIibinSchemaInternal at hfound ⊢
    split at hfound
    · rename_i hinit
      rw [if_pos hinit]
      exact lookup_append_of_some hfound schemas
    · cases hfound
  · intro name enumDef hfound
    unfold getCompiledIibinEnumInternal at hfound ⊢
    split at hfound
    · rename_i hinit
      rw [if_pos hinit]
      exact lookup_append_of_some hfound enums
    · cases hfound

theorem FieldDef.WellTyped.extend {small large : Registry} (htyped : field.WellTyped small)
    (hextends : small.Extends large) : field.WellTyped large := by
  refine ⟨htyped.known, htyped.wire, htyped.packed, ?_, ?_⟩
  · intro htype
    obtain ⟨name, schema, hname, hfree, hfound⟩ := htyped.nested htype
    exact ⟨name, schema, hname, hfree, hextends.schemas name schema hfound⟩
  · intro htype
    obtain ⟨name, enumDef, hname, hfree, hfound⟩ := htyped.enum htype
    exact ⟨name, enumDef, hname, hfree, hextends.enums name enumDef hfound⟩

theorem CompiledSchema.WellFormed.extend {small large : Registry}
    (hformed : schema.WellFormed small) (hextends : small.Extends large) :
    schema.WellFormed large :=
  ⟨fun field hfield => (hformed.fields field hfield).extend hextends, hformed.sorted,
    hformed.byTag⟩

/-- Neither registry knows the name, in its full length or cut at a NUL. -/
structure Registry.Free (registry : Registry) (name : Bytes) : Prop where
  noSchema : getCompiledIibinSchemaInternal registry name = none
  noEnum : getCompiledIibinEnumInternal registry name = none

variable {name : Bytes}

theorem Registry.free_iff :
    registry.Free name ↔ ((getCompiledIibinSchemaInternal registry name).isSome ||
      (getCompiledIibinEnumInternal registry name).isSome) = false := by
  rw [Bool.or_eq_false_iff, Option.isSome_eq_false_iff, Option.isSome_eq_false_iff,
    Option.isNone_iff_eq_none, Option.isNone_iff_eq_none]
  exact ⟨fun hfree => ⟨hfree.noSchema, hfree.noEnum⟩, fun hnone => ⟨hnone.1, hnone.2⟩⟩

theorem quicproIibinDefineEnum_ok {registry' : Registry} {enumName : Bytes} {values : PhpArray}
    (hok : quicproIibinDefineEnum registry enumName values = .ok registry') :
    registry.Free enumName ∧ ∃ enumDef,
      registry' = { registry with enums := registry.enums ++ [(enumName, enumDef)] } := by
  unfold quicproIibinDefineEnum at hok
  split_ifs at hok with _ htaken _ <;> obtain ⟨enumDef, -, hok⟩ := bind_eq_ok.mp hok
  · contradiction
  · exact ⟨Registry.free_iff.mpr (Bool.eq_false_of_not_eq_true htaken), enumDef,
      (Except.ok.inj hok).symm⟩

theorem quicproIibinDefineSchema_eq_ok {registry' : Registry} {definition : PhpArray} :
    quicproIibinDefineSchema registry schemaName definition = .ok registry' ↔
      registry.initialized = true ∧ registry.Free schemaName ∧
        registry.schemas.lookup schemaName = none ∧ ∃ schema,
          compileSchema registry schemaName definition.entries = .ok schema ∧
          registry' = { registry with schemas := registry.schemas ++ [(schemaName, schema)] } := by
  unfold quicproIibinDefineSchema
  constructor
  · intro hok
    split_ifs at hok with hinit htaken hlookup <;>
      obtain ⟨schema, hcompile, hok⟩ := bind_eq_ok.mp hok
    · contradiction
    · exact ⟨by simpa using hinit, Registry.free_iff.mpr (Bool.eq_false_of_not_eq_true htaken),
        Option.not_isSome_iff_eq_none.mp hlookup, schema, hcompile, (Except.ok.inj hok).symm⟩
  · rintro ⟨hinit, hfree, hlookup, schema, hcompile, rfl⟩
    rw [hinit, Registry.free_iff.mp hfree, hcompile]
    refine bind_eq_ok.mpr ⟨schema, rfl, ?_⟩
    rw [hlookup]
    rfl

/-- Everything a definition call can do. -/
theorem Call.apply_cases (registry : Registry) (call : Call) :
    call.apply registry = registry ∨
    (∃ name values enumDef, call = .defineEnum name values ∧ registry.Free name ∧
      call.apply registry = { registry with enums := registry.enums ++ [(name, enumDef)] }) ∨
    (∃ name definition schema, call = .defineSchema name definition ∧ registry.Free name ∧
      compileSchema registry name definition.entries = .ok schema ∧
      call.apply registry = { registry with schemas := registry.schemas ++ [(name, schema)] }) := by
  rcases hrun : call.run registry with fault | registry'
  · left
    rw [Call.apply, hrun]
  · right
    have happly : call.apply registry = registry' := by rw [Call.apply, hrun]
    rw [happly]
    rcases call with ⟨name, values⟩ | ⟨name, definition⟩
    · obtain ⟨hfree, enumDef, rfl⟩ := quicproIibinDefineEnum_ok hrun
      exact .inl ⟨name, values, enumDef, rfl, hfree, rfl⟩
    · obtain ⟨-, hfree, -, schema, hcompile, rfl⟩ := quicproIibinDefineSchema_eq_ok.mp hrun
      exact .inr ⟨name, definition, schema, rfl, hfree, hcompile, rfl⟩

/-- Each schema is well formed with respect to those registered before it. -/
structure Registry.Layered (registry : Registry) : Prop where
  initialized : registry.initialized = true
  layers : ∀ before name schema after, registry.schemas = before ++ (name, schema) :: after →
    schema.WellFormed { registry with schemas := before }

theorem Registry.layered_init : Registry.init.Layered :=
  ⟨rfl, fun before name schema after hsplit => by simp [Registry.init] at hsplit⟩

theorem Call.apply_layered (hlayered : registry.Layered) (call : Call) :
    (call.apply registry).Layered := by
  rcases call.apply_cases registry with happly | ⟨name, _, enumDef, -, -, happly⟩ |
    ⟨name, _, schema, -, -, hcompile, happly⟩ <;> rw [happly]
  · exact hlayered
  · refine ⟨hlayered.initialized, fun before other schema after hsplit => ?_⟩
    have hlayer := hlayered.layers before other schema after hsplit
    have hextends := Registry.extends_append { registry with schemas := before } []
      [(name, enumDef)]
    rw [List.append_nil] at hextends
    exact hlayer.extend hextends
  · refine ⟨hlayered.initialized, fun before other found after hsplit => ?_⟩
    -- the split falls into the old schemas, or the new schema is the one split off
    rcases List.append_eq_append_iff.mp hsplit with ⟨middle, hbefore, hlast⟩ |
      ⟨middle, hold, hafter⟩
    · rcases middle with _ | ⟨head, tail⟩
      · simp only [List.append_nil, List.nil_append, List.cons.injEq,
          Prod.mk.injEq] at hbefore hlast
        obtain ⟨⟨rfl, rfl⟩, -⟩ := hlast
        rw [hbefore]
        exact compileSchema_wellFormed hcompile
      · simp at hlast
    · rcases middle with _ | ⟨head, tail⟩
      · simp only [List.append_nil, List.nil_append, List.cons.injEq, Prod.mk.injEq] at hold hafter
        obtain ⟨⟨rfl, rfl⟩, -⟩ := hafter
        rw [← hold]
        exact compileSchema_wellFormed hcompile
      · rw [List.cons_append, List.cons.injEq] at hafter
        obtain ⟨rfl, -⟩ := hafter
        exact hlayered.layers before other found tail hold

theorem Reachable.layered (hreach : Reachable ok registry) :
    registry.Layered := by
  induction hreach with
  | init => exact Registry.layered_init
  | call call hnames hprev ih => exact Call.apply_layered ih call

theorem reachable_foldl (hreach : Reachable ok registry) (calls : List Call)
    (hnames : ∀ call ∈ calls, ∀ name ∈ call.names, ok name) :
    Reachable ok (calls.foldl Call.apply registry) := by
  induction calls generalizing registry with
  | nil => exact hreach
  | cons call rest ih =>
    have hnext := hreach.call call (hnames call List.mem_cons_self)
    exact ih hnext fun other hother => hnames other (List.mem_cons_of_mem _ hother)

theorem Reachable.weaken {ok' : Bytes → Prop} (hreach : Reachable ok registry)
    (himp : ∀ name, ok name → ok' name) :
    Reachable ok' registry := by
  induction hreach with
  | init => exact .init
  | call call hnames _ ih => exact ih.call call fun name hname => himp name (hnames name hname)

/-- A registered schema and the schemas registered before it. -/
theorem Registry.Layered.split (hlayered : registry.Layered) (hfound : registry.Has name schema) :
    ∃ before after, registry.schemas = before ++ (cstr name, schema) :: after ∧
      cstr name ∉ keys before ∧
      schema.WellFormed { registry with schemas := before } := by
  rw [Registry.Has, getCompiledIibinSchemaInternal, if_pos hlayered.initialized] at hfound
  obtain ⟨before, after, hsplit, hnot⟩ := List.lookup_eq_some_iff.mp hfound
  refine ⟨before, after, hsplit, ?_, hlayered.layers before _ schema after hsplit⟩
  intro hmem
  obtain ⟨entry, hentry, heq⟩ := List.mem_map.mp hmem
  simpa [heq] using hnot entry hentry

theorem Registry.Layered.wellFormed (hlayered : registry.Layered)
    (hfound : registry.Has name schema) :
    schema.WellFormed registry := by
  obtain ⟨before, after, hsplit, -, hformed⟩ := hlayered.split hfound
  have hextends := Registry.extends_append { registry with schemas := before }
    ((cstr name, schema) :: after) []
  rw [List.append_nil] at hextends
  simp only [← hsplit] at hextends
  exact hformed.extend hextends

/-! ### References -/

/-- A schema refers to another one through a message field. -/
def Refers (registry : Registry) (parent child : Bytes) : Prop :=
  ∃ schema, getCompiledIibinSchemaInternal registry parent = some schema ∧
    ∃ field ∈ schema.orderedFields, field.type = .message ∧
      field.messageTypeNameIfNested = some child

/-- The place of a schema in the order of registration. -/
def Registry.position (registry : Registry) (name : Bytes) : Nat :=
  (keys registry.schemas).idxOf (cstr name)

theorem Refers.position_lt (hlayered : registry.Layered) {parent child : Bytes}
    (hrefers : Refers registry parent child) :
    registry.position child < registry.position parent := by
  obtain ⟨schema, hfound, field, hfield, htype, hname⟩ := hrefers
  obtain ⟨before, after, hsplit, hnot, hformed⟩ := hlayered.split hfound
  obtain ⟨name, nested, hname', -, hnested⟩ := (hformed.fields field hfield).nested htype
  rw [hname] at hname'
  cases hname'
  rw [getCompiledIibinSchemaInternal, if_pos hlayered.initialized] at hnested
  have hmem : cstr child ∈ keys before :=
    List.mem_map.mpr ⟨_, mem_of_lookup_eq_some hnested, rfl⟩
  have hkeys : keys registry.schemas =
      keys before ++ cstr parent :: keys after := by
    simp [keys, hsplit]
  rw [Registry.position, Registry.position, hkeys, List.idxOf_append_of_mem hmem,
    List.idxOf_append_of_notMem hnot]
  exact Nat.lt_add_right _ (List.idxOf_lt_length_of_mem hmem)

theorem position_lt_length (hlayered : registry.Layered) (hfound : registry.Has name schema) :
    registry.position name < registry.schemas.length := by
  rw [Registry.Has, getCompiledIibinSchemaInternal, if_pos hlayered.initialized] at hfound
  have hmem : cstr name ∈ keys registry.schemas :=
    List.mem_map.mpr ⟨_, mem_of_lookup_eq_some hfound, rfl⟩
  have hlt := List.idxOf_lt_length_of_mem hmem
  rwa [keys, List.length_map] at hlt

/-- A reference turned out to be missing, or the recursion went deeper than its budget. -/
def Fault.Dangling : Fault → Prop
  | .depth => True
  | .exception (.encodeNestedNotDefined _ _) => True
  | .exception (.encodeEnumNotDefined _ _) => True
  | .exception (.decodeNestedNotDefined _ _) => True
  | _ => False

abbrev NotDangling (result : Except Fault α) : Prop :=
  Ends (fun fault => ¬ fault.Dangling) (fun _ => True) result

section Encoding

variable {host : Host} {registry : Registry} {encodeMessage : MessageEncoder}

/-- The recursive calls for this field resolve. -/
def NestedResolves (registry : Registry) (good : CompiledSchema → Prop) (field : FieldDef) : Prop :=
  field.type = .message → ∀ schema,
    getCompiledIibinSchemaInternal registry (field.messageTypeNameIfNested.getD []) = some schema →
      good schema

theorem checkValueType_notDangling (field : FieldDef) (value : Zval) :
    NotDangling (checkValueType field value) := by
  unfold checkValueType
  split <;> (try split) <;> simp [NotDangling, Ends, Fault.Dangling]

section

variable (htyped : field.WellTyped registry)

include htyped

theorem enumNumber_notDangling (htype : field.type = .enum) (value : Zval) :
    NotDangling (enumNumber registry field value) := by
  obtain ⟨name, enumDef, hname, -, hfound⟩ := htyped.enum htype
  unfold enumNumber
  split
  · trivial
  · simp only [hname, Option.getD_some, hfound]
    split <;> simp [NotDangling, Ends, Fault.Dangling]
  · simp [NotDangling, Ends, Fault.Dangling]

variable (hnested : NestedResolves registry
  (fun schema => ∀ data, NotDangling (encodeMessage schema data)) field)

include hnested

theorem encodeNested_notDangling (htype : field.type = .message) (value : Zval) :
    NotDangling (encodeNested registry encodeMessage field value) := by
  obtain ⟨name, schema, hname, -, hfound⟩ := htyped.nested htype
  have hgood := hnested htype schema (by rw [hname]; exact hfound)
  unfold encodeNested
  split
  · simp only [hname, Option.getD_some, hfound]
    exact Ends.bind (hgood _) fun _ _ => trivial
  · simp only [hname, Option.getD_some, hfound]
    exact Ends.bind (hgood _) fun _ _ => trivial
  · simp [NotDangling, Ends, Fault.Dangling]

theorem encodeSingleFieldValue_notDangling (value : Zval) :
    NotDangling (encodeSingleFieldValue host registry encodeMessage field value) := by
  have hvalue : NotDangling (encodeValue host registry encodeMessage field value) := by
    unfold encodeValue
    split
    all_goals first
      | trivial
      | exact encodeNested_notDangling htyped hnested ‹_› value
      | exact Ends.bind (enumNumber_notDangling htyped ‹_› value) fun _ _ => trivial
      | (split <;> simp [NotDangling, Ends, Fault.Dangling])
      | simp [NotDangling, Ends, Fault.Dangling]
  apply Ends.bind (checkValueType_notDangling field value)
  intro _ _
  exact Ends.bind hvalue fun _ _ => trivial

theorem encodeItems_notDangling (table : HashTable) :
    NotDangling (encodeItems host registry encodeMessage field table) := by
  induction table with
  | nil => trivial
  | cons entry rest ih =>
    apply Ends.bind (encodeSingleFieldValue_notDangling htyped hnested entry.2)
    intro _ _
    exact Ends.bind ih fun _ _ => trivial

theorem encodeFieldInternal_notDangling (value : Option Zval) :
    NotDangling (encodeFieldInternal host registry encodeMessage field value) := by
  have hmissing : NotDangling (if field.flags.required = true then
      .error (.exception (.requiredMissing field.nameInPhp field.tag)) else .ok ([] : Bytes)) := by
    split <;> simp [NotDangling, Ends, Fault.Dangling]
  unfold encodeFieldInternal
  split
  · exact hmissing
  · split
    · exact hmissing
    · split
      · split
        · split
          · trivial
          · split
            · trivial
            · exact encodeItems_notDangling htyped hnested _
        · simp [NotDangling, Ends, Fault.Dangling]
      · exact encodeSingleFieldValue_notDangling htyped hnested _

end

/-- The position of a schema bounds the depth of its messages. -/
theorem encodeMessageInternal_notDangling (host : Host) (hlayered : registry.Layered)
    (depth : Nat) :
    ∀ name schema data, registry.Has name schema →
      registry.position name < depth →
      NotDangling (encodeMessageInternal host registry depth schema data) := by
  induction depth with
  | zero => intro name schema data _ hlt; cases hlt
  | succ depth ih =>
    intro name schema data hfound hlt
    have hformed := hlayered.wellFormed hfound
    have hfields : ∀ fields, (∀ field ∈ fields, field ∈ schema.orderedFields) →
        NotDangling (encodeFields host registry (encodeMessageInternal host registry depth) data
          fields) := by
      intro fields hsub
      induction fields with
      | nil => trivial
      | cons field rest ihFields =>
        have hfield := hsub field List.mem_cons_self
        have htyped := hformed.fields field hfield
        refine Ends.bind (encodeFieldInternal_notDangling htyped ?_ _) fun _ _ =>
          Ends.bind (ihFields fun other hother => hsub other (List.mem_cons_of_mem _ hother))
            fun _ _ => trivial
        intro htype nested hnested nestedData
        obtain ⟨nestedName, -, hname, -, -⟩ := htyped.nested htype
        rw [hname, Option.getD_some] at hnested
        have hearlier := Refers.position_lt hlayered
          ⟨schema, hfound, field, hfield, htype, hname⟩
        exact ih nestedName nested nestedData hnested (by omega)
    unfold encodeMessageInternal
    split
    · exact hfields _ fun _ hfield => hfield
    · exact hfields _ fun _ hfield => hfield
    · simp [NotDangling, Ends, Fault.Dangling]

end Encoding

section Decoding

variable {ctx : DecodeContext} {decodeMessage : MessageDecoder}

theorem readOrFail_notDangling (read : Option (α × Nat)) (convert : α → Zval) :
    NotDangling (readOrFail read convert) := by
  unfold readOrFail
  split <;> simp [NotDangling, Ends, Fault.Dangling]

theorem OnlyConfusion.notDangling {result : Except Fault α} (hends : OnlyConfusion result) :
    NotDangling result := by
  apply hends.weaken
  rintro _ rfl
  exact id

theorem decodeStringValue_notDangling (ptr bufEnd : Nat) :
    NotDangling (decodeStringValue ctx ptr bufEnd) := by
  unfold decodeStringValue
  split
  · simp [NotDangling, Ends, Fault.Dangling]
  · split <;> simp [NotDangling, Ends, Fault.Dangling]

section

variable (htyped : field.WellTyped ctx.registry) (hnested : NestedResolves ctx.registry
  (fun schema => ∀ ptr bufEnd out, NotDangling (decodeMessage ptr bufEnd schema out)) field)

include htyped hnested

theorem decodeMessageValue_notDangling (htype : field.type = .message) (ptr bufEnd : Nat) :
    NotDangling (decodeMessageValue ctx decodeMessage ptr bufEnd field) := by
  obtain ⟨name, schema, hname, -, hfound⟩ := htyped.nested htype
  have hgood := hnested htype schema (by rw [hname]; exact hfound)
  unfold decodeMessageValue
  split
  · simp [NotDangling, Ends, Fault.Dangling]
  · split
    · simp [NotDangling, Ends, Fault.Dangling]
    · simp only [hname, Option.getD_some, hfound]
      exact Ends.bind (hgood _ _ _) fun _ _ => trivial

theorem decodeValueToZval_notDangling (ptr bufEnd : Nat) (wireType : BitVec 32) :
    NotDangling (decodeValueToZval ctx decodeMessage ptr bufEnd field wireType) := by
  unfold decodeValueToZval
  split
  · simp [NotDangling, Ends, Fault.Dangling]
  · split
    all_goals first
      | exact readOrFail_notDangling _ _
      | exact decodeStringValue_notDangling ptr bufEnd
      | exact decodeMessageValue_notDangling htyped hnested ‹_› ptr bufEnd
      | simp [NotDangling, Ends, Fault.Dangling]

theorem decodePackedBlock_notDangling (ptr bufEnd : Nat) (returnZval : Zval) :
    NotDangling (decodePackedBlock ctx decodeMessage field ptr bufEnd returnZval) := by
  unfold decodePackedBlock
  split
  · simp [NotDangling, Ends, Fault.Dangling]
  · split
    · simp [NotDangling, Ends, Fault.Dangling]
    · refine Ends.bind (OnlyConfusion.notDangling (returnArray_onlyConfusion returnZval))
        fun entries _ => ?_
      refine Ends.bind (whileBelow_invariant (fun _ _ => True) (by simp [Fault.Dangling])
        (fun p sub _ _ => ?_) ctx.fuel _ _ trivial) fun _ _ => trivial
      refine Ends.bind (decodeValueToZval_notDangling htyped hnested p _ _) fun read _ => ?_
      exact Ends.bind (OnlyConfusion.notDangling (addNextIndexZval_onlyConfusion sub read.2))
        fun _ _ => trivial

end

theorem decodeField_notDangling {schema : CompiledSchema}
    (hformed : schema.WellFormed ctx.registry)
    (hnested : ∀ field ∈ schema.orderedFields, NestedResolves ctx.registry
      (fun schema => ∀ ptr bufEnd out, NotDangling (decodeMessage ptr bufEnd schema out)) field)
    (ptr bufEnd : Nat) (returnZval : Zval) :
    NotDangling (decodeField ctx decodeMessage schema bufEnd ptr returnZval) := by
  unfold decodeField
  split
  · simp [NotDangling, Ends, Fault.Dangling]
  · split
    · trivial
    · split
      · split <;> simp [NotDangling, Ends, Fault.Dangling]
      · rename_i field hlookup
        obtain ⟨hfield, -⟩ := (hformed.byTag _ field).mp hlookup
        have htyped := hformed.fields field hfield
        split
        · exact decodePackedBlock_notDangling htyped (hnested field hfield) _ bufEnd returnZval
        · refine Ends.bind (decodeValueToZval_notDangling htyped (hnested field hfield) _ bufEnd _)
            fun read _ => ?_
          exact Ends.bind (OnlyConfusion.notDangling
            (storeValue_onlyConfusion field read.2 returnZval))
            fun _ _ => trivial

theorem decodeMessageInternal_notDangling (ctx : DecodeContext) (hlayered : ctx.registry.Layered)
    (depth : Nat) :
    ∀ name schema ptr bufEnd returnZval,
      ctx.registry.Has name schema →
      ctx.registry.position name < depth →
      NotDangling (decodeMessageInternal ctx depth ptr bufEnd schema returnZval) := by
  induction depth with
  | zero => intro name schema ptr bufEnd returnZval _ hlt; cases hlt
  | succ depth ih =>
    intro name schema ptr bufEnd returnZval hfound hlt
    have hformed := hlayered.wellFormed hfound
    refine Ends.mono (whileBelow_invariant (fun _ _ => True) (by simp [Fault.Dangling])
      (fun p out _ _ => ?_) ctx.fuel ptr returnZval trivial) fun _ _ => trivial
    refine Ends.mono (decodeField_notDangling hformed ?_ p bufEnd out) fun _ _ => trivial
    intro field hfield htype nested hnested nestedPtr nestedEnd nestedOut
    obtain ⟨nestedName, -, hname, -, -⟩ := (hformed.fields field hfield).nested htype
    rw [hname, Option.getD_some] at hnested
    have hearlier := Refers.position_lt hlayered ⟨schema, hfound, field, hfield, htype, hname⟩
    exact ih nestedName nested nestedPtr nestedEnd nestedOut hnested (by omega)

theorem populateField_notDangling (schemaName : Bytes) (decoded : Zval) (field : FieldDef) :
    NotDangling (populateField schemaName decoded field) := by
  unfold populateField
  split
  · trivial
  · split
    · simp [NotDangling, Ends, Fault.Dangling]
    · split <;> trivial

theorem populate_notDangling (schema : CompiledSchema) (decoded : Zval) :
    NotDangling (populateDefaultValuesAndCheckRequired schema decoded) :=
  Ends.foldlM (fun _ _ => True)
    (fun _ field decoded _ => populateField_notDangling schema.schemaName decoded field)
    schema.orderedFields trivial

end Decoding

theorem quicproIibinEncode_notDangling (host : Host) (hlayered : registry.Layered)
    (schemaName : Bytes) (data : Zval) :
    NotDangling (quicproIibinEncode host registry schemaName data) := by
  unfold quicproIibinEncode
  split
  · simp [NotDangling, Ends, Fault.Dangling]
  · rename_i schema hfound
    exact encodeMessageInternal_notDangling host hlayered _ schemaName schema data hfound
      (position_lt_length hlayered hfound)

theorem quicproIibinDecode_notDangling (wire : WireContext) (hlayered : wire.registry.Layered)
    (fuel : Nat) (schemaName : Bytes) (buffer : Buffer) :
    NotDangling (quicproIibinDecode wire fuel schemaName buffer) := by
  unfold quicproIibinDecode
  split
  · simp [NotDangling, Ends, Fault.Dangling]
  · rename_i schema hfound
    refine Ends.bind (decodeMessageInternal_notDangling ⟨wire, buffer.memory, fuel⟩ hlayered _
      schemaName schema _ _ _ hfound (position_lt_length hlayered hfound)) fun read _ => ?_
    exact Ends.bind (populate_notDangling schema read.2) fun _ _ => trivial

/-! ### Schemas and enums do not share names -/

/-- No name is registered twice, in one registry or across the two. -/
structure Registry.Separate (registry : Registry) : Prop where
  names : ∀ name ∈ keys registry.schemas, NulFree name
  disjoint : ∀ name ∈ keys registry.schemas, name ∉ keys registry.enums

/-- With NUL-free names the two tests for a taken name see the whole name. -/
theorem Registry.Free.not_mem (hinit : registry.initialized = true) (hfree : registry.Free name)
    (hnul : NulFree name) :
    name ∉ keys registry.schemas ∧ name ∉ keys registry.enums := by
  obtain ⟨hschema, henum⟩ := hfree
  rw [getCompiledIibinSchemaInternal, if_pos hinit, cstr_of_nulFree hnul] at hschema
  rw [getCompiledIibinEnumInternal, if_pos hinit, cstr_of_nulFree hnul] at henum
  exact ⟨lookup_eq_none_iff_not_mem_keys.mp hschema,
    lookup_eq_none_iff_not_mem_keys.mp henum⟩

theorem Reachable.separate (hreach : Reachable NulFree registry) :
    registry.Separate := by
  induction hreach with
  | init =>
    exact ⟨by simp [Registry.init, keys], by simp [Registry.init, keys]⟩
  | @call registry call hnames hprev ih =>
    have hinit := hprev.layered.initialized
    rcases call.apply_cases registry with happly | ⟨name, values, enumDef, rfl, hfree, happly⟩ |
      ⟨name, definition, schema, rfl, hfree, -, happly⟩ <;> rw [happly]
    · exact ih
    · obtain ⟨hnew, -⟩ := hfree.not_mem hinit (hnames name (by simp [Call.names]))
      refine ⟨ih.names, fun other hother hmem => ?_⟩
      simp only [keys, List.map_append, List.map_cons, List.map_nil, List.mem_append,
        List.mem_singleton] at hmem
      rcases hmem with hold | rfl
      · exact ih.disjoint other hother hold
      · exact hnew hother
    · have hnul := hnames name (by simp [Call.names])
      obtain ⟨-, hnew⟩ := hfree.not_mem hinit hnul
      have hkeys : keys (registry.schemas ++ [(name, schema)]) =
          keys registry.schemas ++ [name] := by simp [keys]
      constructor
      · intro other hother
        rcases List.mem_append.mp (hkeys ▸ hother) with hold | hlast
        · exact ih.names other hold
        · rw [List.mem_singleton.mp hlast]
          exact hnul
      · intro other hother
        rcases List.mem_append.mp (hkeys ▸ hother) with hold | hlast
        · exact ih.disjoint other hold
        · rw [List.mem_singleton.mp hlast]
          exact hnew

/-- The fields have different names, none of which PHP would take for an integer. -/
structure CompiledSchema.Named (schema : CompiledSchema) : Prop where
  distinct : (schema.orderedFields.map FieldDef.nameInPhp).Nodup
  textual : ∀ field ∈ schema.orderedFields, handleNumericStr field.nameInPhp = none

/-- With NUL-free names the names of the fields are the keys of the definition. -/
theorem keys_eq_names {fields : List FieldDef}
    (hdeclared : List.Forall₂ (Declares registry schemaName) entries fields)
    (hnul : ∀ name ∈ (keys entries).filterMap Key.string?, NulFree name) :
    keys entries = fields.map fun field => .str field.nameInPhp := by
  induction hdeclared with
  | nil => rfl
  | cons hfirst _ ih =>
    obtain ⟨name, options, rfl, hparse⟩ := hfirst
    simp only [keys, List.map_cons, List.filterMap_cons, Key.string?, List.mem_cons,
      forall_eq_or_imp] at hnul
    rw [List.map_cons, ← ih hnul.2, (parsePhpFieldOptions_ok hparse).1, cstr_of_nulFree hnul.1]
    rfl

theorem compileSchema_named {definition : PhpArray}
    (hnul : ∀ name ∈ definition.stringKeys, NulFree name)
    (hok : compileSchema registry schemaName definition.entries = .ok schema) : schema.Named := by
  obtain ⟨built, hbuilt, rfl⟩ := compileSchema_ok hok
  have hkeys := keys_eq_names hbuilt.declared hnul
  have hperm := List.perm_insertionSort tagLe built.2
  constructor
  · have hnodup := definition.nodup
    rw [hkeys] at hnodup
    apply (hperm.map FieldDef.nameInPhp).nodup_iff.mpr
    exact List.Nodup.of_map Key.str (by rwa [List.map_map])
  · intro field hfield
    have hmem : Key.str field.nameInPhp ∈ keys definition.entries := by
      rw [hkeys]
      exact List.mem_map.mpr ⟨field, hperm.mem_iff.mp hfield, rfl⟩
    exact Option.isNone_iff_eq_none.mp (definition.canonical _ hmem)

theorem Reachable.named (hreach : Reachable NulFree registry)
    (hfound : registry.Has name schema) : schema.Named := by
  suffices hall : ∀ entry ∈ registry.schemas, entry.2.Named by
    rw [Registry.Has, getCompiledIibinSchemaInternal, if_pos hreach.layered.initialized] at hfound
    exact hall _ (mem_of_lookup_eq_some hfound)
  clear hfound
  induction hreach with
  | init =>
    intro entry hentry
    cases hentry
  | @call registry call hnames hprev ih =>
    rcases call.apply_cases registry with happly | ⟨_, _, _, -, -, happly⟩ |
      ⟨name, definition, schema, rfl, -, hcompile, happly⟩ <;> rw [happly]
    · exact ih
    · exact ih
    · intro entry hentry
      rcases List.mem_append.mp hentry with hold | hnew
      · exact ih entry hold
      · rw [List.mem_singleton.mp hnew]
        refine compileSchema_named (fun key hkey => hnames key ?_) hcompile
        exact List.mem_cons_of_mem _ hkey

/-- **The registries are well founded.** In every state reached by definition calls with
    NUL-free names: message fields refer to schemas registered strictly earlier, enum
    fields to registered enums, no name is both; so references have no cycle, and
    encoding and decoding neither miss a reference nor nest deeper than there are
    schemas, whatever the data, the bytes and the reading of the bound tests. -/
theorem reachable_wellFounded (registry : Registry) (hreach : Reachable NulFree registry) :
    (∀ before name schema after, registry.schemas = before ++ (name, schema) :: after →
      ∀ field ∈ schema.orderedFields,
        (field.type = .message → ∃ nestedName nested,
          field.messageTypeNameIfNested = some nestedName ∧ (nestedName, nested) ∈ before ∧
          getCompiledIibinSchemaInternal registry nestedName = some nested) ∧
        (field.type = .enum → ∃ enumName enumDef, field.enumTypeNameIfEnum = some enumName ∧
          getCompiledIibinEnumInternal registry enumName = some enumDef)) ∧
    (∀ name, ¬ (name ∈ keys registry.schemas ∧ name ∈ keys registry.enums)) ∧
    (∀ name, ¬ Relation.TransGen (Refers registry) name name) ∧
    (∀ host schemaName data fault, quicproIibinEncode host registry schemaName data = .error fault →
      ¬ fault.Dangling) ∧
    (∀ wire fuel schemaName buffer fault, wire.registry = registry →
      quicproIibinDecode wire fuel schemaName buffer = .error fault → ¬ fault.Dangling) := by
  have hlayered := hreach.layered
  refine ⟨?_, ?_, ?_, ?_, ?_⟩
  · intro before name schema after hsplit field hfield
    have hformed := hlayered.layers before name schema after hsplit
    have hextends := Registry.extends_append { registry with schemas := before }
      ((name, schema) :: after) []
    rw [List.append_nil] at hextends
    simp only [← hsplit] at hextends
    constructor
    · intro htype
      obtain ⟨nestedName, nested, hname, hnul, hfound⟩ := (hformed.fields field hfield).nested htype
      refine ⟨nestedName, nested, hname, ?_, hextends.schemas nestedName nested hfound⟩
      rw [getCompiledIibinSchemaInternal, if_pos hlayered.initialized,
        cstr_of_nulFree hnul] at hfound
      exact mem_of_lookup_eq_some hfound
    · intro htype
      obtain ⟨enumName, enumDef, hname, -, hfound⟩ := (hformed.fields field hfield).enum htype
      exact ⟨enumName, enumDef, hname, hextends.enums enumName enumDef hfound⟩
  · rintro name ⟨hschema, henum⟩
    exact hreach.separate.disjoint name hschema henum
  · intro name hcycle
    have hlt : ∀ parent child, Relation.TransGen (Refers registry) parent child →
        registry.position child < registry.position parent := by
      intro parent child hpath
      induction hpath with
      | single hrefers => exact hrefers.position_lt hlayered
      | tail _ hrefers ih => exact Nat.lt_trans (hrefers.position_lt hlayered) ih
    exact Nat.lt_irrefl _ (hlt name name hcycle)
  · intro host schemaName data fault hfault
    exact (quicproIibinEncode_notDangling host hlayered schemaName data).error hfault
  · rintro wire fuel schemaName buffer fault rfl hfault
    exact (quicproIibinDecode_notDangling wire hlayered fuel schemaName buffer).error hfault

/-- The options of a field with the given tag and type. -/
def fieldOptions (tag : BitVec 64) (type : String) (more : HashTable) : Zval :=
  .array ((.str (ascii "tag"), .long tag) :: (.str (ascii "type"), .string (ascii type)) :: more)

def colorValues : PhpArray :=
  ⟨[(.str (ascii "RED"), .long 1), (.str (ascii "BLUE"), .long 2)], by decide, by decide⟩

/-- An enum, a schema with a field of that enum, and a schema that nests the first. -/
def shapeCalls : List Call :=
  [ .defineEnum (ascii "Color") colorValues,
    .defineSchema (ascii "Point")
      ⟨[(.str (ascii "x"), fieldOptions 1 "int32" []),
        (.str (ascii "color"), fieldOptions 2 "Color" [])], by decide, by decide⟩,
    .defineSchema (ascii "Line")
      ⟨[(.str (ascii "points"), fieldOptions 1 "repeated_Point" [])], by decide, by decide⟩ ]

def shapeRegistry : Registry := shapeCalls.foldl Call.apply Registry.init

theorem shapeRegistry_reachable : Reachable NulFree shapeRegistry :=
  reachable_foldl Reachable.init shapeCalls (by decide +kernel)

theorem reachable_wellFounded_shape :
    Reachable NulFree shapeRegistry ∧ Refers shapeRegistry (ascii "Line") (ascii "Point") ∧
      ∀ name, ¬ Relation.TransGen (Refers shapeRegistry) name name := by
  refine ⟨shapeRegistry_reachable, ?_,
    (reachable_wellFounded shapeRegistry shapeRegistry_reachable).2.2.1⟩
  exact ⟨_, rfl, _, List.mem_singleton_self _, rfl, rfl⟩

end QuicproAsync.Iibin

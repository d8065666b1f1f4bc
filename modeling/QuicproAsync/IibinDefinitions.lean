import QuicproAsync.IibinKeys

/-!
# What a definition call does

`quicpro_iibin_define_enum` and `quicpro_iibin_define_schema` run on the two registries: they look
names up while they parse, and write when all of the array has been parsed. This module runs
them with the registries as a state that a failure does not restore, and shows what a call leaves
behind; which type a type string stands for; and what the tables of an enum contain.
-/

namespace QuicproAsync.Iibin

open Php Fallible OrderedMap

variable {enumName fieldName : Bytes} {values : PhpArray} {options : HashTable} {n : BitVec 64}

/-! ### The calls on the registries -/

/-- A computation on the two registries that may fail. -/
abbrev Defining := ExceptT Fault (StateM Registry)

/-- `zend_hash_str_add_ptr` on the registry of enums, which refuses a key that exists. -/
def addToEnumRegistry (enumName : Bytes) (enumDef : CompiledEnum) : Defining Unit := do
  let registry ← get
  if (registry.enums.lookup enumName).isSome then
    throw (.exception (.enumNotAdded (cstr enumName)))
  else set { registry with enums := registry.enums ++ [(enumName, enumDef)] }

def addToSchemaRegistry (schemaName : Bytes) (schema : CompiledSchema) : Defining Unit := do
  let registry ← get
  if (registry.schemas.lookup schemaName).isSome then
    throw (.exception (.schemaNotAdded (cstr schemaName)))
  else set { registry with schemas := registry.schemas ++ [(schemaName, schema)] }

/-- The two tests before anything is built. -/
def checkName (name : Bytes) (taken : IibinError) : Defining Unit := do
  let registry ← get
  if !registry.initialized then throw (.exception .registriesNotInitialized)
  else if (getCompiledIibinSchemaInternal registry name).isSome ||
      (getCompiledIibinEnumInternal registry name).isSome then throw (.exception taken)
  else pure ()

/-- `quicpro_iibin_define_enum`. -/
def executeDefineEnum (enumName : Bytes) (enumValues : PhpArray) : Defining Unit := do
  checkName enumName (.enumNameTaken (cstr enumName))
  let enumDef ← enumValues.entries.foldlM (fun built entry => do
    let _ ← get
    ofExcept (addEnumValue (cstr enumName) built entry)) ⟨enumName, [], []⟩
  addToEnumRegistry enumName enumDef

/-- `quicpro_iibin_define_schema`; each field is parsed with the registries as they are then. -/
def executeDefineSchema (schemaName : Bytes) (schemaDefinition : PhpArray) : Defining Unit := do
  checkName schemaName (.schemaNameTaken (cstr schemaName))
  let built ← schemaDefinition.entries.foldlM (fun built entry => do
    let registry ← get
    ofExcept (addSchemaField registry (cstr schemaName) built entry)) ([], [])
  addToSchemaRegistry schemaName
    { schemaName := cstr schemaName
      fieldsByTag := built.1
      orderedFields := built.2.insertionSort tagLe }

def Call.execute : Call → Defining Unit
  | .defineEnum name values => executeDefineEnum name values
  | .defineSchema name definition => executeDefineSchema name definition

def Call.name : Call → Bytes
  | .defineEnum name _ => name
  | .defineSchema name _ => name

/-- What is returned, and the registries afterwards. -/
def Call.returned (registry : Registry) (call : Call) : Except Fault Unit × Registry :=
  runFrom call.execute registry

/-- The new registries of a call that succeeds, the old ones of a call that fails. -/
def settle (registry : Registry) : Except Fault Registry → Except Fault Unit × Registry
  | .ok registry' => (.ok (), registry')
  | .error fault => (.error fault, registry)

variable {registry : Registry}

/-- The tests on the name, before what is done when both are passed. -/
theorem runFrom_checkName {rest : Defining Unit} {result : Except Fault Registry}
    (hrest : runFrom rest registry = settle registry result) (name : Bytes) (taken : IibinError) :
    runFrom (checkName name taken >>= fun _ => rest) registry = settle registry
      (if !registry.initialized then .error (.exception .registriesNotInitialized)
        else if (getCompiledIibinSchemaInternal registry name).isSome ||
          (getCompiledIibinEnumInternal registry name).isSome then .error (.exception taken)
        else result) := by
  have hcheck : runFrom (checkName name taken) registry =
      (if !registry.initialized then .error (.exception .registriesNotInitialized)
        else if (getCompiledIibinSchemaInternal registry name).isSome ||
          (getCompiledIibinEnumInternal registry name).isSome then .error (.exception taken)
        else .ok (), registry) := by
    rw [checkName, runFrom_bind_ok (runFrom_get registry)]
    split_ifs <;> rfl
  split_ifs at hcheck ⊢
  · exact runFrom_bind_error hcheck _
  · exact runFrom_bind_error hcheck _
  · rw [runFrom_bind_ok hcheck]
    exact hrest

/-- A part that only reads, before the rest. -/
theorem runFrom_reading {reading : Defining α} {read : Except Fault α} {next : α → Defining Unit}
    {next' : α → Except Fault Registry} (hread : runFrom reading registry = (read, registry))
    (hnext : ∀ value, runFrom (next value) registry = settle registry (next' value)) :
    runFrom (reading >>= next) registry = settle registry (read >>= next') := by
  cases read with
  | error fault => exact runFrom_bind_error hread _
  | ok value =>
    rw [runFrom_bind_ok hread]
    exact hnext value

/-- The call that runs on the registries is the one that is given them. -/
theorem Call.returned_eq (registry : Registry) (call : Call) :
    call.returned registry = settle registry (call.run registry) := by
  cases call with
  | defineEnum name values =>
    refine runFrom_checkName (runFrom_reading ?_ fun enumDef => ?_) name _
    · exact runFrom_foldlM (fun _ : Registry => addEnumValue (cstr name)) values.entries _
        registry
    · rw [addToEnumRegistry, runFrom_bind_ok (runFrom_get registry)]
      split_ifs <;> rfl
  | defineSchema name definition =>
    refine runFrom_checkName ?_ name _
    rw [compileSchema, bind_assoc]
    refine runFrom_reading ?_ fun built => ?_
    · exact runFrom_foldlM (fun registry => addSchemaField registry (cstr name))
        definition.entries _ registry
    · rw [addToSchemaRegistry, runFrom_bind_ok (runFrom_get registry)]
      change _ = settle registry (if _ then _ else _)
      split_ifs <;> rfl

/-! ### Failures are thrown -/

/-- The call returns, and if it fails it has thrown. -/
abbrev Throws (result : Except Fault α) : Prop :=
  Ends (fun fault => ∃ error, fault = .exception error) (fun _ => True) result

theorem throws_exception (error : IibinError) :
    Throws (.error (.exception error) : Except Fault α) := ⟨error, rfl⟩

theorem parseTag_throws (schemaName fieldName : Bytes) (options : HashTable) :
    Throws (parseTag schemaName fieldName options) := by
  unfold parseTag
  split
  · split
    · exact throws_exception _
    · trivial
  · exact throws_exception _

theorem parseType_throws (schemaName fieldName : Bytes) (options : HashTable) :
    Throws (parseType schemaName fieldName options) := by
  unfold parseType
  split
  · split
    · trivial
    · exact throws_exception _
  · exact throws_exception _

theorem resolveType_throws (registry : Registry) (schemaName fieldName : Bytes) (base : FieldType)
    (referenced : Option Bytes) :
    Throws (resolveType registry schemaName fieldName base referenced) := by
  unfold resolveType
  split
  · exact throws_exception _
  · split
    · trivial
    · split
      · trivial
      · exact throws_exception _
  · trivial

/-- The enum of an enum field has just been found, so it is there for the default. -/
theorem parseDefault_throws {type : FieldType} {enumName : Option Bytes}
    (henum : type = .enum → ∃ name enumDef, enumName = some name ∧ NulFree name ∧
      getCompiledIibinEnumInternal registry name = some enumDef) (schemaName fieldName : Bytes)
    (options : HashTable) :
    Throws (parseDefault registry schemaName fieldName options type enumName) := by
  unfold parseDefault
  split
  · trivial
  · split
    · obtain ⟨name, enumDef, rfl, -, hfound⟩ := henum rfl
      rw [Option.getD_some, hfound]
      dsimp only
      split
      · exact throws_exception _
      · trivial
    · trivial

theorem parsePhpFieldOptions_throws (registry : Registry) (schemaName fieldName : Bytes)
    (options : HashTable) :
    Throws (parsePhpFieldOptions registry schemaName fieldName options) := by
  refine Ends.bind (parseTag_throws schemaName fieldName options) fun tag _ => ?_
  refine Ends.bind (parseType_throws schemaName fieldName options).with_eq ?_
  rintro ⟨base, isRepeated, referenced⟩ ⟨-, htype⟩
  refine Ends.bind (resolveType_throws registry schemaName fieldName base referenced).with_eq ?_
  rintro ⟨type, messageName, enumName⟩ ⟨-, hresolve⟩
  have henum := (resolveType_ok (parseType_ok htype) hresolve).2
  dsimp only
  split
  · exact throws_exception _
  · exact Ends.bind (parseDefault_throws henum schemaName fieldName options) fun _ _ => trivial

theorem addSchemaField_throws (registry : Registry) (schemaName : Bytes)
    (built : List (BitVec 32 × FieldDef) × List FieldDef) (entry : Key × Zval) :
    Throws (addSchemaField registry schemaName built entry) := by
  unfold addSchemaField
  split
  · refine Ends.bind (parsePhpFieldOptions_throws registry schemaName _ _) fun field _ => ?_
    split
    · exact throws_exception _
    · trivial
  · exact throws_exception _

theorem addEnumValue_throws (enumName : Bytes) (built : CompiledEnum) (entry : Key × Zval) :
    Throws (addEnumValue enumName built entry) := by
  unfold addEnumValue
  split
  · dsimp only
    split
    · exact throws_exception _
    · split
      · exact throws_exception _
      · trivial
  · exact throws_exception _

theorem Call.run_throws (registry : Registry) (call : Call) : Throws (call.run registry) := by
  cases call with
  | defineEnum name values =>
    rw [Call.run, quicproIibinDefineEnum]
    have hfold := Ends.foldlM (fun _ _ => True)
      (fun _ entry built _ => addEnumValue_throws (cstr name) built entry) values.entries
      (s := ⟨name, [], []⟩) trivial
    split_ifs
    · exact throws_exception _
    · exact throws_exception _
    · exact Ends.bind hfold fun _ _ => throws_exception _
    · exact Ends.bind hfold fun _ _ => trivial
  | defineSchema name definition =>
    rw [Call.run, quicproIibinDefineSchema]
    have hfold := Ends.foldlM (fun _ _ => True)
      (fun _ entry built _ => addSchemaField_throws registry (cstr name) built entry)
      definition.entries (s := ([], [])) trivial
    have hcompile : Throws (compileSchema registry name definition.entries) :=
      Ends.bind hfold fun _ _ => trivial
    split_ifs
    · exact throws_exception _
    · exact throws_exception _
    · exact Ends.bind hcompile fun _ _ => throws_exception _
    · exact Ends.bind hcompile fun _ _ => trivial

/-! ### All or nothing -/

/-- The schema holds the fields that were given: one for each entry, which declares it, in
    strictly ascending order of their tags; and the table by tag has these fields and no others. -/
structure CompiledSchema.Holds (registry : Registry) (schemaName : Bytes) (definition : PhpArray)
    (schema : CompiledSchema) : Prop where
  count : schema.orderedFields.length = definition.entries.length
  declared : ∃ fields, List.Forall₂ (Declares registry schemaName) definition.entries fields ∧
    fields.Perm schema.orderedFields
  sorted : schema.orderedFields.Pairwise fun left right => left.tag.toNat < right.tag.toNat
  byTag : schema.fieldsByTag.Perm (schema.orderedFields.map fun field => (field.tag, field))

variable {schemaName : Bytes}

theorem compileSchema_holds {definition : PhpArray} {schema : CompiledSchema}
    (hok : compileSchema registry schemaName definition.entries = .ok schema) :
    schema.Holds registry (cstr schemaName) definition := by
  have hsorted := (compileSchema_wellFormed hok).sorted
  obtain ⟨built, hbuilt, rfl⟩ := compileSchema_ok hok
  have hperm := List.perm_insertionSort tagLe built.2
  refine ⟨?_, ⟨built.2, hbuilt.declared, hperm.symm⟩, hsorted, ?_⟩
  · rw [hperm.length_eq]
    exact hbuilt.declared.length_eq.symm
  · rw [hbuilt.byTag]
    exact hperm.symm.map _

theorem quicproIibinDefineEnum_initialized {registry' : Registry}
    (hok : quicproIibinDefineEnum registry enumName values = .ok registry') :
    registry.initialized = true := by
  by_contra hinit
  rw [quicproIibinDefineEnum, if_pos (by simpa using hinit)] at hok
  cases hok

/-- Everything is as before but for one new entry under the name of the call. -/
def Call.Adds (registry registry' : Registry) : Call → Prop
  | .defineEnum name _ => ∃ enumDef,
      registry' = { registry with enums := registry.enums ++ [(name, enumDef)] }
  | .defineSchema name definition => ∃ schema : CompiledSchema,
      schema.Holds registry name definition ∧
      registry' = { registry with schemas := registry.schemas ++ [(name, schema)] }

/-- **Definition calls are all-or-nothing.** Whatever the registries and the array are, a call with
    a NUL-free name returns `TRUE` with one new entry, under a name that neither registry had, or
    it returns `FALSE` with an exception and both registries as they were. -/
theorem definition_all_or_nothing (registry : Registry) (call : Call) (hname : NulFree call.name) :
    (∃ registry', call.returned registry = (.ok (), registry') ∧
        call.name ∉ keys registry.schemas ∧ call.name ∉ keys registry.enums ∧
        call.Adds registry registry') ∨
      ∃ error, call.returned registry = (.error (.exception error), registry) := by
  rw [call.returned_eq]
  rcases hrun : call.run registry with fault | registry'
  · obtain ⟨error, rfl⟩ := (call.run_throws registry).error hrun
    exact .inr ⟨error, rfl⟩
  · refine .inl ⟨registry', rfl, ?_⟩
    cases call with
    | defineEnum name values =>
      have hinit : registry.initialized = true := quicproIibinDefineEnum_initialized hrun
      obtain ⟨hfree, hadds⟩ := quicproIibinDefineEnum_ok hrun
      obtain ⟨hschemas, henums⟩ := hfree.not_mem hinit hname
      exact ⟨hschemas, henums, hadds⟩
    | defineSchema name definition =>
      obtain ⟨hinit, hfree, -, schema, hcompile, rfl⟩ := quicproIibinDefineSchema_eq_ok.mp hrun
      obtain ⟨hschemas, henums⟩ := hfree.not_mem hinit hname
      have hcstr : cstr name = name := cstr_of_nulFree hname
      have hholds := compileSchema_holds hcompile
      rw [hcstr] at hholds
      exact ⟨hschemas, henums, schema, hholds, rfl⟩

/-- Two fields, the second of which has the tag of the first. -/
def sameTags : PhpArray :=
  ⟨[(.str (ascii "x"), fieldOptions 1 "int32" []), (.str (ascii "y"), fieldOptions 1 "bool" [])],
    by decide, by decide⟩

theorem definition_all_or_nothing_point :
    (∃ registry', (Call.defineSchema (ascii "P") (oneField (fieldOptions 1 "int32" []))).returned
        Registry.init = (.ok (), registry') ∧
      (Call.defineSchema (ascii "P") (oneField (fieldOptions 1 "int32" []))).Adds Registry.init
        registry') ∧
    ∃ error, (Call.defineSchema (ascii "Q") sameTags).returned shapeRegistry =
      (.error (.exception error), shapeRegistry) := by
  constructor
  · rcases definition_all_or_nothing Registry.init
      (.defineSchema (ascii "P") (oneField (fieldOptions 1 "int32" []))) (by decide +kernel) with
      ⟨registry', hreturned, -, -, hadds⟩ | ⟨error, hreturned⟩
    · exact ⟨registry', hreturned, hadds⟩
    · cases congrArg Prod.fst hreturned
  · rcases definition_all_or_nothing shapeRegistry (.defineSchema (ascii "Q") sameTags)
      (by decide +kernel) with ⟨registry', hreturned, -⟩ | herror
    · cases congrArg Prod.fst hreturned
    · exact herror

/-! ### Type strings -/

/-- The type string without one leading `repeated_`. -/
def elementName (typeStr : Bytes) : Bytes :=
  if (ascii "repeated_").isPrefixOf typeStr then typeStr.drop 9 else typeStr

/-- The type of a field, with the schema or the enum it names. -/
def FieldDef.typeRef (field : FieldDef) : FieldType × Option Bytes × Option Bytes :=
  (field.type, field.messageTypeNameIfNested, field.enumTypeNameIfEnum)

/-- The type of exactly this name: a primitive, or else a registered schema or enum. -/
def exactType (registry : Registry) (name : Bytes) :
    Option (FieldType × Option Bytes × Option Bytes) :=
  match primitiveNames.lookup name with
  | some type => some (type, none, none)
  | none =>
    if (getCompiledIibinSchemaInternal registry name).isSome then some (.message, some name, none)
    else if (getCompiledIibinEnumInternal registry name).isSome then
      some (.enum, none, some name)
    else none

/-- The name is the beginning of the name of a primitive, but not all of it. -/
def IsCut (name : Bytes) : Prop :=
  name ≠ [] ∧ ∃ entry ∈ primitiveNames, name <+: entry.1 ∧ name ≠ entry.1

instance (name : Bytes) : Decidable (IsCut name) :=
  inferInstanceAs (Decidable (_ ∧ ∃ entry ∈ primitiveNames, _ ∧ _))

theorem strncmpEq_literal {literal : Bytes} (hfree : NulFree literal) (text : Bytes) :
    strncmpEq literal.length text literal = literal.isPrefixOf text := by
  rw [strncmpEq_comm, Bool.eq_iff_iff, strncmpEq_length hfree, List.isPrefixOf_iff_prefix]

variable {typeStr : Bytes}

theorem nulFree_elementName (hnul : NulFree typeStr) :
    NulFree (elementName typeStr) := by
  unfold elementName
  split
  · exact hnul.of_sublist (List.drop_sublist 9 typeStr)
  · exact hnul

/-- What the type string is parsed to: the first primitive that begins with the element name. -/
theorem parsePhpFieldTypeDetails_eq (hnul : NulFree typeStr) :
    parsePhpFieldTypeDetails typeStr =
      if elementName typeStr = [] then none
      else match primitiveNames.find? fun entry => (elementName typeStr).isPrefixOf entry.1 with
        | some entry => some (entry.2, (ascii "repeated_").isPrefixOf typeStr, none)
        | none => some (.unknown, (ascii "repeated_").isPrefixOf typeStr,
            some (elementName typeStr)) := by
  have hrepeated : strncmpEq 9 typeStr (ascii "repeated_") =
      (ascii "repeated_").isPrefixOf typeStr :=
    @strncmpEq_literal (ascii "repeated_") (by decide +kernel) typeStr
  have hrest := nulFree_elementName hnul
  have htest : (fun entry : Bytes × FieldType =>
      strncmpEq (elementName typeStr).length (elementName typeStr) entry.1) =
      fun entry => (elementName typeStr).isPrefixOf entry.1 := by
    funext entry
    rw [Bool.eq_iff_iff, strncmpEq_length hrest, List.isPrefixOf_iff_prefix]
  have hname : (if (ascii "repeated_").isPrefixOf typeStr then typeStr.drop 9 else typeStr) =
      elementName typeStr := rfl
  unfold parsePhpFieldTypeDetails
  simp only [hrepeated, hname, htest, cstr_of_nulFree hrest]
  by_cases hempty : elementName typeStr = []
  · rw [if_pos hempty]
    split_ifs with htypeStr hboth
    · rfl
    · rfl
    · -- without the prefix the element name is the type string
      exfalso
      unfold elementName at hempty
      split at hempty
      · simp_all [elementName]
      · simp_all
  · rw [if_neg hempty]
    have htypeStr : typeStr.isEmpty = false := by
      rw [List.isEmpty_eq_false_iff]
      rintro rfl
      exact hempty rfl
    have hbool : (elementName typeStr).isEmpty = false := by simpa using hempty
    rw [htypeStr, hbool, Bool.and_false, if_neg Bool.false_ne_true, if_neg Bool.false_ne_true]
    cases primitiveNames.find? fun entry => (elementName typeStr).isPrefixOf entry.1 <;> rfl

variable {name : Bytes}

/-- A name that is not cut is found among the primitives exactly if it is one of them. -/
theorem find?_primitive (hne : name ≠ []) (hcut : ¬ IsCut name) :
    (primitiveNames.find? fun entry => name.isPrefixOf entry.1).map Prod.snd =
      primitiveNames.lookup name := by
  have hwhole : ∀ entry ∈ primitiveNames, name.isPrefixOf entry.1 = (name == entry.1) := by
    intro entry hentry
    rw [Bool.eq_iff_iff, List.isPrefixOf_iff_prefix, beq_iff_eq]
    constructor
    · intro hbegins
      by_contra hdiffers
      exact hcut ⟨hne, entry, hentry, hbegins, hdiffers⟩
    · rintro rfl
      exact List.prefix_rfl
  generalize primitiveNames = names at hwhole
  induction names with
  | nil => rfl
  | cons entry rest ih =>
    obtain ⟨hentry, hrest⟩ := List.forall_mem_cons.mp hwhole
    rw [List.find?_cons, List.lookup_cons, hentry]
    cases name == entry.1 with
    | true => rfl
    | false => exact ih hrest

/-- A cut name is found, as the first primitive that begins with it. -/
theorem exists_primitive_of_cut (hcut : IsCut name) :
    ∃ entry ∈ primitiveNames,
      primitiveNames.find? (fun entry => name.isPrefixOf entry.1) = some entry := by
  obtain ⟨-, entry, hentry, hbegins, -⟩ := hcut
  have hsome : (primitiveNames.find? fun entry => name.isPrefixOf entry.1).isSome :=
    List.find?_isSome.mpr ⟨entry, hentry, List.isPrefixOf_iff_prefix.mpr hbegins⟩
  obtain ⟨found, hfound⟩ := Option.isSome_iff_exists.mp hsome
  exact ⟨found, List.mem_of_find?_eq_some hfound, hfound⟩

/-- No name of a primitive is the beginning of another. -/
theorem lookup_primitive_of_cut (hcut : IsCut name) :
    primitiveNames.lookup name = none := by
  have hdistinct : ∀ entry ∈ primitiveNames, ∀ other ∈ primitiveNames,
      entry.1.isPrefixOf other.1 = true → entry.1 = other.1 := by decide +kernel
  obtain ⟨-, other, hother, hbegins, hdiffers⟩ := hcut
  by_contra hsome
  obtain ⟨type, htype⟩ := Option.ne_none_iff_exists'.mp hsome
  have hmem := mem_of_lookup_eq_some htype
  exact hdiffers (hdistinct _ hmem other hother (List.isPrefixOf_iff_prefix.mpr hbegins))

/-- The type that `parse_php_field_options` settles on. -/
def resolved (registry : Registry) (schemaName fieldName typeStr : Bytes) :
    Option (FieldType × Option Bytes × Option Bytes) :=
  (parsePhpFieldTypeDetails typeStr).bind fun details =>
    (resolveType registry schemaName fieldName details.1 details.2.2).toOption

theorem typeRef_of_parse {field : FieldDef}
    (htype : option options "type" = some (.string typeStr))
    (hok : parsePhpFieldOptions registry schemaName fieldName options = .ok field) :
    resolved registry schemaName fieldName typeStr = some field.typeRef := by
  obtain ⟨tag, -, hok⟩ := bind_eq_ok.mp hok
  obtain ⟨⟨base, isRepeated, referenced⟩, hparse, hok⟩ := bind_eq_ok.mp hok
  obtain ⟨⟨type, messageName, enumName⟩, hresolve, hok⟩ := bind_eq_ok.mp hok
  have hdetails : parsePhpFieldTypeDetails typeStr = some (base, isRepeated, referenced) := by
    rw [parseType, htype] at hparse
    dsimp only at hparse
    split at hparse
    · rename_i details hdetails
      rw [hdetails, Except.ok.inj hparse]
    · cases hparse
  dsimp only at hok hresolve
  split at hok
  · cases hok
  · obtain ⟨default, -, hok⟩ := bind_eq_ok.mp hok
    cases hok
    rw [resolved, hdetails, Option.bind_some, hresolve]
    rfl

theorem resolveType_known {base type : FieldType} {referenced messageName enumName : Option Bytes}
    (hok : resolveType registry schemaName fieldName base referenced =
      .ok (type, messageName, enumName)) : type ≠ .unknown := by
  unfold resolveType at hok
  split at hok
  · cases hok
  · split at hok
    · cases hok
      decide
    · split at hok
      · cases hok
        decide
      · cases hok
  · rename_i hbase
    cases hok
    rintro rfl
    cases referenced with
    | none => simp_all
    | some name => simp_all

/-- With a tag and without a default, nothing but the type can be wrong with a field. -/
theorem parse_of_resolved {tag : BitVec 64} {typeRef : FieldType × Option Bytes × Option Bytes}
    (htype : option options "type" = some (.string typeStr))
    (htag : option options "tag" = some (.long tag)) (hpositive : 0 < tag.toInt)
    (hdefault : option options "default" = none)
    (hresolved : resolved registry schemaName fieldName typeStr = some typeRef) :
    ∃ field, parsePhpFieldOptions registry schemaName fieldName options = .ok field := by
  obtain ⟨type, messageName, enumName⟩ := typeRef
  obtain ⟨⟨base, isRepeated, referenced⟩, hdetails, hresolve⟩ :=
    Option.bind_eq_some_iff.mp hresolved
  have hresolve : resolveType registry schemaName fieldName base referenced =
      .ok (type, messageName, enumName) := by
    rcases hresult : resolveType registry schemaName fieldName base referenced with fault | found
    · rw [hresult] at hresolve
      cases hresolve
    · rw [hresult] at hresolve
      rw [Option.some.inj hresolve]
  have hwire : ¬ calculateFieldWireType type (usePacked isRepeated type options) = -1 := by
    intro hnone
    have hlt := calculateFieldWireType_lt (resolveType_known hresolve)
      (usePacked isRepeated type options)
    rw [hnone] at hlt
    revert hlt
    decide
  have htagOk : parseTag schemaName fieldName options = .ok (tag.setWidth 32) := by
    rw [parseTag, htag]
    exact if_neg (Int.not_le.mpr hpositive)
  have htypeOk : parseType schemaName fieldName options = .ok (base, isRepeated, referenced) := by
    rw [parseType, htype]
    dsimp only
    rw [hdetails]
  have hdefaultOk : parseDefault registry schemaName fieldName options type enumName =
      .ok .undef := by
    rw [parseDefault, hdefault]
  rw [parsePhpFieldOptions, htagOk, htypeOk]
  simp only [bind, Except.bind, hresolve, hdefaultOk, if_neg hwire, Except.ok.injEq, exists_eq']

theorem resolved_empty (hnul : NulFree typeStr) (hempty : elementName typeStr = [])
    (registry : Registry) (schemaName fieldName : Bytes) :
    resolved registry schemaName fieldName typeStr = none := by
  rw [resolved, parsePhpFieldTypeDetails_eq hnul, if_pos hempty]
  rfl

theorem resolveType_primitive {entry : Bytes × FieldType} (hentry : entry ∈ primitiveNames)
    (registry : Registry) (schemaName fieldName : Bytes) (referenced : Option Bytes) :
    resolveType registry schemaName fieldName entry.2 referenced = .ok (entry.2, none, none) := by
  have hknown : ∀ entry ∈ primitiveNames, entry.2 ≠ .unknown := by decide
  have hne := hknown entry hentry
  unfold resolveType
  split
  · rename_i hunknown
    exact absurd hunknown hne
  · rename_i hunknown
    exact absurd hunknown hne
  · rfl

theorem resolved_cut (hnul : NulFree typeStr) (hcut : IsCut (elementName typeStr))
    (registry : Registry) (schemaName fieldName : Bytes) :
    ∃ entry ∈ primitiveNames,
      resolved registry schemaName fieldName typeStr = some (entry.2, none, none) := by
  obtain ⟨entry, hentry, hfind⟩ := exists_primitive_of_cut hcut
  refine ⟨entry, hentry, ?_⟩
  rw [resolved, parsePhpFieldTypeDetails_eq hnul, if_neg hcut.1, hfind, Option.bind_some,
    resolveType_primitive hentry]
  rfl

theorem resolved_exact (hnul : NulFree typeStr) (hne : elementName typeStr ≠ [])
    (hcut : ¬ IsCut (elementName typeStr)) (registry : Registry) (schemaName fieldName : Bytes) :
    resolved registry schemaName fieldName typeStr = exactType registry (elementName typeStr) := by
  have hfound := find?_primitive hne hcut
  rw [resolved, parsePhpFieldTypeDetails_eq hnul, if_neg hne, exactType, ← hfound]
  rcases hfind : primitiveNames.find? fun entry => (elementName typeStr).isPrefixOf entry.1 with
    _ | entry
  · rw [hfind, Option.bind_some, Option.map_none]
    dsimp only [resolveType]
    split_ifs <;> rfl
  · rw [hfind, Option.bind_some, resolveType_primitive (List.mem_of_find?_eq_some hfind),
      Option.map_some]
    rfl

/-- The call is not refused before it comes to its fields. -/
structure Registry.OpenTo (registry : Registry) (schemaName : Bytes) : Prop where
  initialized : registry.initialized = true
  free : registry.Free schemaName
  unused : registry.schemas.lookup schemaName = none

/-- `define_schema` takes fields of this type string for what the element name says: an accepted
    schema has the field with exactly that type, so that a field without one is rejected; and a
    type that is there does not stand in the way of a field with a tag and no default. -/
structure ResolvesExactly (registry : Registry) (schemaName typeStr : Bytes) : Prop where
  treated : ∀ definition registry',
    quicproIibinDefineSchema registry schemaName definition = .ok registry' →
    ∀ name options, (.str name, .array options) ∈ definition.entries →
    option options "type" = some (.string typeStr) →
    ∃ schema, registry'.schemas = registry.schemas ++ [(schemaName, schema)] ∧
      ∃ field ∈ schema.orderedFields,
        Declares registry (cstr schemaName) (.str name, .array options) field ∧
        exactType registry (elementName typeStr) = some field.typeRef
  accepted : (exactType registry (elementName typeStr)).isSome →
    ∀ definition name options tag, definition.entries = [(.str name, .array options)] →
    option options "type" = some (.string typeStr) → option options "tag" = some (.long tag) →
    0 < tag.toInt → option options "default" = none →
    ∃ registry', quicproIibinDefineSchema registry schemaName definition = .ok registry'

theorem define_one {field : FieldDef} (definition : PhpArray) (hopen : registry.OpenTo schemaName)
    (hentries : definition.entries = [(.str name, .array options)])
    (hparse : parsePhpFieldOptions registry (cstr schemaName) (cstr name) options = .ok field) :
    ∃ registry', quicproIibinDefineSchema registry schemaName definition = .ok registry' := by
  refine ⟨_, quicproIibinDefineSchema_eq_ok.mpr ⟨hopen.initialized, hopen.free, hopen.unused,
    ⟨cstr schemaName, [(field.tag, field)], [field]⟩, ?_, rfl⟩⟩
  rw [hentries, compileSchema, List.foldlM_cons, addSchemaField, hparse]
  rfl

/-- A tag and the type string, nothing else. -/
def plainOptions (typeStr : Bytes) : HashTable :=
  [(.str (ascii "tag"), .long 1), (.str (ascii "type"), .string typeStr)]

theorem ResolvesExactly.not_cut (hexact : ResolvesExactly registry schemaName typeStr)
    (hopen : registry.OpenTo schemaName) (hnul : NulFree typeStr) :
    ¬ IsCut (elementName typeStr) := by
  intro hcut
  have htype : option (plainOptions typeStr) "type" = some (.string typeStr) := rfl
  obtain ⟨entry, hentry, hresolved⟩ := resolved_cut hnul hcut registry (cstr schemaName)
    (cstr (ascii "x"))
  obtain ⟨field, hparse⟩ := parse_of_resolved htype rfl (by decide) rfl hresolved
  obtain ⟨registry', hdefine⟩ := define_one (oneField (.array _)) hopen rfl hparse
  obtain ⟨-, -, found, -, ⟨_, _, heq, hfound⟩, hname⟩ := hexact.treated _ registry' hdefine
    (ascii "x") _ List.mem_cons_self htype
  cases heq
  -- the field was taken for a primitive, and the exact type is none
  rw [typeRef_of_parse htype hfound, ← hname, exactType, lookup_primitive_of_cut hcut] at hresolved
  have hprimitive : ∀ entry ∈ primitiveNames, entry.2 ≠ .message ∧ entry.2 ≠ .enum := by decide
  obtain ⟨hmessage, henum⟩ := hprimitive entry hentry
  dsimp only at hresolved
  split_ifs at hresolved
  · exact hmessage (congrArg Prod.fst (Option.some.inj hresolved)).symm
  · exact henum (congrArg Prod.fst (Option.some.inj hresolved)).symm

theorem ResolvesExactly.nothing_empty (hexact : ResolvesExactly registry schemaName typeStr)
    (hnul : NulFree typeStr) (hempty : elementName typeStr = []) :
    exactType registry [] = none := by
  by_contra hsome
  have htype : option (plainOptions typeStr) "type" = some (.string typeStr) := rfl
  have hthere : (exactType registry (elementName typeStr)).isSome := by
    rw [hempty]
    exact Option.isSome_iff_ne_none.mpr hsome
  obtain ⟨registry', hdefine⟩ := hexact.accepted hthere (oneField (.array _)) (ascii "x") _ 1 rfl
    htype rfl (by decide) rfl
  obtain ⟨-, -, -, schema, hcompile, -⟩ := quicproIibinDefineSchema_eq_ok.mp hdefine
  obtain ⟨built, hbuilt, -⟩ := compileSchema_ok hcompile
  obtain ⟨field, -, ⟨_, _, heq, hparse⟩⟩ := hbuilt.declared_of_mem List.mem_cons_self
  cases heq
  have hresolved := typeRef_of_parse htype hparse
  rw [resolved_empty hnul hempty] at hresolved
  cases hresolved

theorem resolvesExactly_of_resolved (hopen : registry.OpenTo schemaName)
    (hresolved : ∀ fieldName, resolved registry (cstr schemaName) fieldName typeStr =
      exactType registry (elementName typeStr)) :
    ResolvesExactly registry schemaName typeStr := by
  constructor
  · intro definition registry' hdefine name options hentry htype
    obtain ⟨-, -, -, schema, hcompile, rfl⟩ := quicproIibinDefineSchema_eq_ok.mp hdefine
    obtain ⟨built, hbuilt, rfl⟩ := compileSchema_ok hcompile
    obtain ⟨field, hfield, hdeclares⟩ := hbuilt.declared_of_mem hentry
    refine ⟨_, rfl, field, (List.mem_insertionSort tagLe).mpr hfield, hdeclares, ?_⟩
    obtain ⟨_, _, heq, hparse⟩ := hdeclares
    cases heq
    rw [← hresolved, typeRef_of_parse htype hparse]
  · intro hthere definition name options tag hentries htype htag hpositive hdefault
    obtain ⟨typeRef, htypeRef⟩ := Option.isSome_iff_exists.mp hthere
    rw [← hresolved (cstr name)] at htypeRef
    obtain ⟨field, hparse⟩ := parse_of_resolved htype htag hpositive hdefault htypeRef
    exact define_one definition hopen hentries hparse

/-- **Type strings resolve exactly** as long as the element name is not the beginning of a
    primitive, and not empty while a schema or an enum has the empty name. -/
theorem resolves_exactly_iff (registry : Registry) (schemaName typeStr : Bytes)
    (hopen : registry.OpenTo schemaName) (hnul : NulFree typeStr) :
    ResolvesExactly registry schemaName typeStr ↔
      ¬ IsCut (elementName typeStr) ∧
        (elementName typeStr = [] → exactType registry [] = none) := by
  constructor
  · intro hexact
    exact ⟨hexact.not_cut hopen hnul, hexact.nothing_empty hnul⟩
  · rintro ⟨hcut, hempty⟩
    apply resolvesExactly_of_resolved hopen
    intro fieldName
    by_cases hname : elementName typeStr = []
    · rw [resolved_empty hnul hname, hname, hempty hname]
    · exact resolved_exact hnul hname hcut registry (cstr schemaName) fieldName

theorem Registry.openTo_init (schemaName : Bytes) : Registry.init.OpenTo schemaName :=
  ⟨rfl, ⟨rfl, rfl⟩, rfl⟩

theorem resolves_exactly_int32 :
    ResolvesExactly Registry.init (ascii "P") (ascii "repeated_int32") :=
  (resolves_exactly_iff Registry.init (ascii "P") (ascii "repeated_int32")
    (Registry.openTo_init _) (by decide +kernel)).mpr ⟨by decide +kernel, by decide +kernel⟩

/-- `d` is taken for `double`, although nothing is called `d`. -/
theorem cut_name_taken_for_primitive :
    exactType Registry.init (ascii "d") = none ∧
    (∃ schema field, quicproIibinDefineSchema Registry.init (ascii "P")
        (oneField (fieldOptions 1 "d" [])) = .ok ⟨[(ascii "P", schema)], [], true⟩ ∧
      schema.orderedFields = [field] ∧ field.type = .double) ∧
    ¬ ResolvesExactly Registry.init (ascii "P") (ascii "d") := by
  refine ⟨by decide +kernel, ⟨_, _, rfl, rfl, rfl⟩, fun hexact => ?_⟩
  exact hexact.not_cut (Registry.openTo_init _) (by decide +kernel) (by decide +kernel)

/-! ### The tables of an enum -/

/-- The entry of the array that declares a name with a number. -/
def declaration (value : Bytes × BitVec 64) : Key × Zval := (.str value.1, .long value.2)

/-- The number under which it is filed: the cast to `int32_t`, and back to an index. -/
def filedNumber (n : BitVec 64) : BitVec 64 := (n.setWidth 32).signExtend 64

/-- What the loop of `quicpro_iibin_define_enum` has built from the declarations so far. -/
structure EnumBuilt (declared : List (Bytes × BitVec 64)) (built : CompiledEnum) : Prop where
  names : built.valuesByName =
    declared.map fun value => (value.1, ⟨value.1, value.2.setWidth 32⟩)
  numbers : built.namesByValue = declared.map fun value => (filedNumber value.2, cstr value.1)
  distinctNames : (declared.map Prod.fst).Nodup
  distinctNumbers : (declared.map fun value => filedNumber value.2).Nodup

variable {declared : List (Bytes × BitVec 64)} {built : CompiledEnum}

theorem EnumBuilt.keys_names (hbuilt : EnumBuilt declared built) :
    keys built.valuesByName = declared.map Prod.fst := by
  rw [hbuilt.names]
  simp [keys]

theorem EnumBuilt.keys_numbers (hbuilt : EnumBuilt declared built) :
    keys built.namesByValue = declared.map fun value => filedNumber value.2 := by
  rw [hbuilt.numbers]
  simp [keys]

theorem addEnumValue_built {next : CompiledEnum} {entry : Key × Zval}
    (hbuilt : EnumBuilt declared built) (hok : addEnumValue enumName built entry = .ok next) :
    ∃ value, entry = declaration value ∧ EnumBuilt (declared ++ [value]) next := by
  unfold addEnumValue at hok
  split at hok
  · rename_i name n
    dsimp only at hok
    split_ifs at hok with hname hnumber
    cases hok
    have hnewName : name ∉ declared.map Prod.fst := by
      rw [← hbuilt.keys_names]
      exact lookup_eq_none_iff_not_mem_keys.mp (Option.not_isSome_iff_eq_none.mp hname)
    have hnewNumber : filedNumber n ∉ declared.map fun value => filedNumber value.2 := by
      rw [← hbuilt.keys_numbers]
      exact lookup_eq_none_iff_not_mem_keys.mp
        (Option.not_isSome_iff_eq_none.mp hnumber)
    refine ⟨(name, n), rfl, ?_, ?_, ?_, ?_⟩
    · simp [hbuilt.names]
    · simp [hbuilt.numbers, filedNumber]
    · rw [List.map_append]
      exact hbuilt.distinctNames.append (List.nodup_singleton _)
        (List.disjoint_singleton.mpr hnewName)
    · rw [List.map_append]
      exact hbuilt.distinctNumbers.append (List.nodup_singleton _)
        (List.disjoint_singleton.mpr hnewNumber)
  · cases hok

theorem foldlM_addEnumValue {entries : HashTable} {final : CompiledEnum}
    (hbuilt : EnumBuilt declared built)
    (hok : entries.foldlM (addEnumValue enumName) built = .ok final) :
    ∃ values, entries = values.map declaration ∧ EnumBuilt (declared ++ values) final := by
  induction entries generalizing declared built with
  | nil =>
    cases hok
    exact ⟨[], rfl, by rwa [List.append_nil]⟩
  | cons entry rest ih =>
    rw [List.foldlM_cons] at hok
    obtain ⟨next, hstep, hrest⟩ := bind_eq_ok.mp hok
    obtain ⟨value, rfl, hnext⟩ := addEnumValue_built hbuilt hstep
    obtain ⟨values, rfl, hfinal⟩ := ih hnext hrest
    exact ⟨value :: values, rfl, by rwa [List.append_assoc] at hfinal⟩

/-- The tables say what was declared: a name has the number that was declared for it, that number
    has the name, and there are no other names and numbers. -/
structure CompiledEnum.Faithful (values : PhpArray) (enumDef : CompiledEnum) : Prop where
  numberOf : ∀ name n, (.str name, .long n) ∈ values.entries →
    ∃ valueDef, enumDef.valuesByName.lookup name = some valueDef ∧ valueDef.name = name ∧
      valueDef.number.signExtend 64 = n
  nameOf : ∀ name n, (.str name, .long n) ∈ values.entries →
    enumDef.namesByValue.lookup n = some name
  noOtherName : ∀ name valueDef, enumDef.valuesByName.lookup name = some valueDef →
    ∃ n, (.str name, .long n) ∈ values.entries
  noOtherNumber : ∀ n name, enumDef.namesByValue.lookup n = some name →
    (.str name, .long n) ∈ values.entries

theorem EnumBuilt.numberOf (hbuilt : EnumBuilt declared built) (hmem : (name, n) ∈ declared) :
    built.valuesByName.lookup name = some ⟨name, n.setWidth 32⟩ := by
  apply lookup_of_mem
  · rw [hbuilt.keys_names]
    exact hbuilt.distinctNames
  · rw [hbuilt.names]
    exact List.mem_map.mpr ⟨(name, n), hmem, rfl⟩

theorem EnumBuilt.nameOf (hbuilt : EnumBuilt declared built) (hmem : (name, n) ∈ declared) :
    built.namesByValue.lookup (filedNumber n) = some (cstr name) := by
  apply lookup_of_mem
  · rw [hbuilt.keys_numbers]
    exact hbuilt.distinctNumbers
  · rw [hbuilt.numbers]
    exact List.mem_map.mpr ⟨(name, n), hmem, rfl⟩

theorem mem_declaration {values : List (Bytes × BitVec 64)} :
    (Key.str name, Zval.long n) ∈ values.map declaration ↔ (name, n) ∈ values := by
  constructor
  · intro hmem
    obtain ⟨value, hvalue, heq⟩ := List.mem_map.mp hmem
    cases heq
    exact hvalue
  · intro hmem
    exact List.mem_map.mpr ⟨(name, n), hmem, rfl⟩

theorem EnumBuilt.fits_of_faithful {enumDef : CompiledEnum} (hbuilt : EnumBuilt declared enumDef)
    (hentries : values.entries = declared.map declaration) (hfaithful : enumDef.Faithful values)
    (hmem : (name, n) ∈ declared) :
    filedNumber n = n := by
  have hentry : (.str name, .long n) ∈ values.entries := by rwa [hentries, mem_declaration]
  obtain ⟨valueDef, hlookup, -, hnumber⟩ := hfaithful.numberOf name n hentry
  rw [hbuilt.numberOf hmem, Option.some.injEq] at hlookup
  rw [← hlookup] at hnumber
  exact hnumber

theorem EnumBuilt.faithful {enumDef : CompiledEnum} (hbuilt : EnumBuilt declared enumDef)
    (hentries : values.entries = declared.map declaration)
    (hnames : ∀ name n, (name, n) ∈ declared → cstr name = name)
    (hfits : ∀ name n, (name, n) ∈ declared → filedNumber n = n) : enumDef.Faithful values := by
  constructor
  · intro name n hmem
    rw [hentries, mem_declaration] at hmem
    exact ⟨_, hbuilt.numberOf hmem, rfl, hfits name n hmem⟩
  · intro name n hmem
    rw [hentries, mem_declaration] at hmem
    have hname := hbuilt.nameOf hmem
    rwa [hfits name n hmem, hnames name n hmem] at hname
  · intro name valueDef hlookup
    have hmem := mem_of_lookup_eq_some hlookup
    rw [hbuilt.names] at hmem
    obtain ⟨value, hvalue, heq⟩ := List.mem_map.mp hmem
    cases heq
    exact ⟨value.2, by rwa [hentries, mem_declaration]⟩
  · intro n name hlookup
    have hmem := mem_of_lookup_eq_some hlookup
    rw [hbuilt.numbers] at hmem
    obtain ⟨value, hvalue, heq⟩ := List.mem_map.mp hmem
    cases heq
    rw [hentries, mem_declaration, hfits value.1 value.2 hvalue, hnames value.1 value.2 hvalue]
    exact hvalue

/-- **Enum tables are faithful** exactly if every declared number fits into 32 bits. -/
theorem enum_faithful_iff (registry registry' : Registry) (enumName : Bytes) (values : PhpArray)
    (hnames : ∀ name ∈ values.stringKeys, NulFree name)
    (hok : quicproIibinDefineEnum registry enumName values = .ok registry') :
    ∃ enumDef, registry' = { registry with enums := registry.enums ++ [(enumName, enumDef)] } ∧
      (enumDef.Faithful values ↔ ∀ name n, (.str name, .long n) ∈ values.entries →
        -2 ^ 31 ≤ n.toInt ∧ n.toInt < 2 ^ 31) := by
  unfold quicproIibinDefineEnum at hok
  split_ifs at hok with hinit htaken hadded <;> obtain ⟨enumDef, hfold, hok⟩ := bind_eq_ok.mp hok
  · contradiction
  refine ⟨enumDef, (Except.ok.inj hok).symm, ?_⟩
  have hempty : EnumBuilt [] ⟨enumName, [], []⟩ := ⟨rfl, rfl, List.nodup_nil, List.nodup_nil⟩
  obtain ⟨declared, hentries, hbuilt⟩ := foldlM_addEnumValue hempty hfold
  rw [List.nil_append] at hbuilt
  simp only [← signExtend_setWidth_eq_iff, hentries, mem_declaration]
  constructor
  · intro hfaithful name n hmem
    exact hbuilt.fits_of_faithful hentries hfaithful hmem
  · intro hfits
    refine hbuilt.faithful hentries ?_ hfits
    intro name n hmem
    apply cstr_of_nulFree
    apply hnames
    rw [PhpArray.stringKeys, List.mem_filterMap]
    refine ⟨.str name, List.mem_map.mpr ⟨(.str name, .long n), ?_, rfl⟩, rfl⟩
    rwa [hentries, mem_declaration]

theorem enum_faithful_color :
    ∃ registry' enumDef,
      quicproIibinDefineEnum Registry.init (ascii "Color") colorValues = .ok registry' ∧
      registry' = ⟨[], [(ascii "Color", enumDef)], true⟩ ∧ enumDef.Faithful colorValues := by
  obtain ⟨enumDef, hadded, hiff⟩ :=
    enum_faithful_iff Registry.init _ (ascii "Color") colorValues (by decide) rfl
  refine ⟨_, enumDef, rfl, hadded, hiff.mpr ?_⟩
  intro name n hmem
  simp only [colorValues, List.mem_cons, List.not_mem_nil, or_false, Prod.mk.injEq,
    Zval.long.injEq] at hmem
  obtain ⟨-, rfl⟩ | ⟨-, rfl⟩ := hmem
  · decide
  · decide

/-- A number that takes 33 bits. -/
def wideValues : PhpArray := ⟨[(.str (ascii "WIDE"), .long 4294967297)], by decide, by decide⟩

/-- It is filed as 1, and not found under the number that was declared. -/
theorem wide_number_narrowed :
    ∃ enumDef, quicproIibinDefineEnum Registry.init (ascii "E") wideValues =
        .ok ⟨[], [(ascii "E", enumDef)], true⟩ ∧
      enumDef.valuesByName.lookup (ascii "WIDE") = some ⟨ascii "WIDE", 1⟩ ∧
      enumDef.namesByValue.lookup 4294967297 = none ∧ ¬ enumDef.Faithful wideValues := by
  refine ⟨_, rfl, rfl, rfl, fun hfaithful => ?_⟩
  have hname := hfaithful.nameOf (ascii "WIDE") 4294967297 (List.mem_singleton_self _)
  cases hname

end QuicproAsync.Iibin

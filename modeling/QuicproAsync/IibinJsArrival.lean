import QuicproAsync.IibinJsStoring

/-!
# Messages that arrive in JavaScript

`viewMessage` says what a message of any types and any depth is on the other side, from the
message alone: which properties the object has, in which order, and what each of them holds.

The object that `decode` of `iibin.js` builds is that view: the loop adds a property for each
known field that something was sent for, and the second pass adds the defaults. With names of
its own for every field no property is ever overwritten, so the order of the properties is the
order of the fields.
-/

namespace QuicproAsync.Iibin.Js

open Php Fallible ScanLoop OrderedMap

variable {table : Schema} {pair : Iibin.FieldDef × FieldDef}

/-! ### The other side of a message -/

/-- The fields that a table has an entry for, with these entries. -/
def known (table : Schema) (fields : List Iibin.FieldDef) : List (Iibin.FieldDef × FieldDef) :=
  fields.filterMap fun field => (table.fieldsByTag.lookup field.tag.toNat).map (Prod.mk field)

section

variable (env : Env) (host : Host) (registry : Registry)

/-- What is sent for a field becomes a property behind those of the fields before it. -/
def viewMember (viewMessage : Viewer) (data : Zval) (obj : Props)
    (pair : Iibin.FieldDef × FieldDef) : Except Error Props := do
  let values ← (sentItems registry pair.1 (readMember data pair.1.nameInPhp)).mapM
    (viewItem env host registry viewMessage pair.1 pair.2)
  match values with
  | [] => .ok obj
  | first :: _ =>
    .ok (obj ++ [(pair.1.nameInPhp, if pair.1.flags.repeated then .array values else first)])

/-- A field that nothing was sent for must not be required and falls back to its default. -/
def viewDefault (schemaName : Bytes) (obj : Props) (pair : Iibin.FieldDef × FieldDef) :
    Except Error Props :=
  match obj.lookup pair.1.nameInPhp with
  | some _ => .ok obj
  | none =>
    if pair.1.flags.required then .error (.requiredMissing pair.1.nameInPhp schemaName)
    else
      match pair.2.default with
      | .undefined => .ok obj
      | value => .ok (obj ++ [(pair.1.nameInPhp, value)])

/-- The object that a message is on the other side, for the fields that the table knows. -/
def viewMessage : (depth : Nat) → Viewer
  | 0, _, _, _ => .ok []
  | depth + 1, schema, table, data => do
      let obj ← (known table schema.orderedFields).foldlM
        (viewMember env host registry (viewMessage depth) data) []
      (known table schema.orderedFields).foldlM (viewDefault table.name) obj

end

/-- A table that has some of the fields of a schema, each as the schema has it, under names
    that are not those of `Object.prototype`; for a field of messages their table is found,
    under the name of their schema. -/
structure Reads (env : Env) (schema : CompiledSchema) (table : Schema) : Prop where
  entries : table.fieldsByTag =
    (known table schema.orderedFields).map fun pair => (pair.1.tag.toNat, pair.2)
  mirrors : ∀ pair ∈ known table schema.orderedFields, Mirrors pair.1 (pair.1.tag.toNat, pair.2)
  own : ∀ pair ∈ known table schema.orderedFields, pair.1.nameInPhp ∉ inheritedNames
  nested : ∀ pair ∈ known table schema.orderedFields, pair.1.type = .message →
    ∃ nestedTable, nestedSchema env pair.2 = .ok nestedTable ∧
      env.schemas.lookup (pair.1.messageTypeNameIfNested.getD []) = some nestedTable

/-- The tables are for the schemas that are registered under their names. -/
def Serves (env : Env) (registry : Registry) : Prop :=
  ∀ name schema table, getCompiledIibinSchemaInternal registry name = some schema →
    env.schemas.lookup name = some table → Reads env schema table

theorem mem_known {fields : List Iibin.FieldDef} :
    pair ∈ known table fields ↔
      pair.1 ∈ fields ∧ table.fieldsByTag.lookup pair.1.tag.toNat = some pair.2 := by
  obtain ⟨field, mirror⟩ := pair
  simp only [known, List.mem_filterMap, Option.map_eq_some_iff, Prod.mk.injEq]
  constructor
  · rintro ⟨field, hfield, mirror, hlookup, rfl, rfl⟩
    exact ⟨hfield, hlookup⟩
  · rintro ⟨hfield, hlookup⟩
    exact ⟨field, hfield, mirror, hlookup, rfl, rfl⟩

variable {field : Iibin.FieldDef}

theorem known_none (hlookup : table.fieldsByTag.lookup field.tag.toNat = none)
    (fields : List Iibin.FieldDef) :
    known table (field :: fields) = known table fields := by
  simp [known, hlookup]

theorem known_some {mirror : FieldDef}
    (hlookup : table.fieldsByTag.lookup field.tag.toNat = some mirror)
    (fields : List Iibin.FieldDef) :
    known table (field :: fields) = (field, mirror) :: known table fields := by
  simp [known, hlookup]

variable {env : Env} {host : Host} {registry : Registry} {schema : CompiledSchema} {data : Zval}

/-! ### The object -/

section

variable {viewMessage : Viewer} {obj : Props}

theorem viewItem_defined {field : Iibin.FieldDef} (htype : field.type ≠ .unknown)
    {mirror : FieldDef} {item : Zval} {value : Value}
    (hview : viewItem env host registry viewMessage field mirror item = .ok value) :
    value ≠ .undefined := by
  rintro rfl
  unfold viewItem at hview
  cases hfield : field.type <;> simp only [hfield] at hview
  case unknown => exact htype hfield
  case message =>
    split at hview
    · rename_i nested table _ _
      rcases hprops : viewMessage nested table item with error | props <;> rw [hprops] at hview <;>
        cases hview
    · cases hview
  all_goals
    have hvalue := Except.ok.inj hview
    cases hvalue

/-- On a name that is not taken yet, the items of a field make one property. -/
theorem deliverMember_eq (hlookup : table.fieldsByTag.lookup pair.1.tag.toNat = some pair.2)
    (hown : pair.1.nameInPhp ∉ inheritedNames) (hordinary : Ordinary obj)
    (hfree : pair.1.nameInPhp ∉ keys obj) :
    deliverMember env host registry viewMessage table data obj pair.1 =
      viewMember env host registry viewMessage data obj pair := by
  have hproto := ne_protoName hown
  have hnone := lookup_eq_none_iff_not_mem_keys.mpr hfree
  have hassign : ∀ value, assign pair.1.nameInPhp value obj =
      obj ++ [(pair.1.nameInPhp, value)] := fun value => assign_of_not_mem hfree
  unfold deliverMember viewMember
  rw [deliverItem_known hlookup]
  cases hrepeated : pair.1.flags.repeated with
  | true =>
    have hdeliver : deliver env pair.1 =
        fun obj value => pushProperty env obj pair.1.nameInPhp value := by
      funext obj value
      rw [deliver, if_pos hrepeated]
    have hstore : ∀ (obj : Props) value,
        Ordinary obj ∧ IsArray (obj.lookup pair.1.nameInPhp) →
          ∃ next, deliver env pair.1 obj value = .ok next ∧
            Ordinary next ∧ IsArray (next.lookup pair.1.nameInPhp) := by
      rintro obj value ⟨hordinary, harray⟩
      rw [hdeliver]
      refine ⟨_, pushProperty_eq env hordinary hown harray value, hordinary.assign hproto _, ?_⟩
      rw [lookup_assign_self]
      rintro _ ⟨⟩
      exact ⟨_, rfl⟩
    have harray : IsArray (obj.lookup pair.1.nameInPhp) := by
      rw [hnone]
      intro value hvalue
      cases hvalue
    rw [foldlM_store _ hstore _ ⟨hordinary, harray⟩]
    congr 1
    funext values
    rcases values with _ | ⟨first, rest⟩
    · rfl
    · rw [hdeliver, foldlM_pushProperty env hordinary hown (List.cons_ne_nil _ _) harray, hassign,
        hnone]
      rfl
  | false =>
    rcases sentItems_atMostOne hrepeated (readMember data pair.1.nameInPhp) with
      hitems | ⟨item, hitems⟩
    · rw [hitems]
      rfl
    · rw [hitems]
      simp only [List.foldlM_cons, List.foldlM_nil, List.mapM_cons, List.mapM_nil, bind_pure]
      rcases viewItem env host registry viewMessage pair.1 pair.2 item with error | value
      · rfl
      · show deliver env pair.1 obj value = _
        rw [deliver, if_neg (by simp [hrepeated]), setProperty_eq env hordinary hproto, hassign]
        rfl

theorem Defined.concat (hdefined : Defined obj) {name : Bytes} (hname : name ≠ protoName)
    {value : Value} (hvalue : value ≠ .undefined) : Defined (obj ++ [(name, value)]) := by
  constructor
  · rw [Ordinary, List.lookup_append, hdefined.ordinary]
    simp [List.lookup_cons, beq_false_of_ne hname.symm]
  · intro other
    rw [List.lookup_append]
    rcases hown : obj.lookup other with _ | old
    · by_cases heq : other = name
      · simpa [heq] using hvalue
      · simp [List.lookup_cons, beq_false_of_ne heq]
    · simpa [hown] using hdefined.own other

/-- Only the name of the field is added, and never with `undefined`. -/
theorem viewMember_adds (htype : pair.1.type ≠ .unknown) (hproto : pair.1.nameInPhp ≠ protoName)
    (hdefined : Defined obj) {next : Props}
    (hview : viewMember env host registry viewMessage data obj pair = .ok next) :
    Defined next ∧ ∀ name ∈ keys next,
      name ∈ keys obj ∨ name = pair.1.nameInPhp := by
  obtain ⟨values, hvalues, hview⟩ := bind_eq_ok.mp hview
  rcases values with _ | ⟨first, rest⟩
  · cases hview
    exact ⟨hdefined, fun name hname => .inl hname⟩
  · cases hview
    have hfirst : first ≠ .undefined := by
      rcases hitems : sentItems registry pair.1 (readMember data pair.1.nameInPhp) with
        _ | ⟨item, items⟩
      · rw [hitems] at hvalues
        cases hvalues
      · rw [hitems, List.mapM_cons] at hvalues
        obtain ⟨value, hvalue, hvalues⟩ := bind_eq_ok.mp hvalues
        obtain ⟨others, -, hvalues⟩ := bind_eq_ok.mp hvalues
        cases hvalues
        exact viewItem_defined htype hvalue
    refine ⟨hdefined.concat hproto ?_, fun name hname => by simpa [keys] using hname⟩
    split
    · intro heq
      cases heq
    · exact hfirst

/-- The pass for required fields and defaults. -/
theorem populateField_eq (hmirror : Mirrors pair.1 (pair.1.tag.toNat, pair.2))
    (hown : pair.1.nameInPhp ∉ inheritedNames) (hdefined : Defined obj) (schemaName : Bytes) :
    populateField env schemaName obj (pair.1.tag.toNat, pair.2) =
        viewDefault schemaName obj pair ∧
      ∀ next, viewDefault schemaName obj pair = .ok next → Defined next := by
  have hname : pair.2.name = pair.1.nameInPhp := hmirror.name
  have hflags : pair.2.flags = pair.1.flags := hmirror.flags
  have hproto := ne_protoName hown
  unfold populateField viewDefault
  simp only [hname, hflags]
  rcases hlookup : obj.lookup pair.1.nameInPhp with _ | value
  · have hfree := lookup_eq_none_iff_not_mem_keys.mp hlookup
    have hassign : ∀ value, assign pair.1.nameInPhp value obj =
        obj ++ [(pair.1.nameInPhp, value)] := fun value => assign_of_not_mem hfree
    rw [(getProperty_eq_undefined env hdefined).mpr ⟨hlookup, hown⟩]
    cases pair.1.flags.required with
    | true =>
      refine ⟨rfl, fun next hnext => ?_⟩
      cases hnext
    | false =>
      cases hdefault : pair.2.default
      case undefined => exact ⟨rfl, fun _ hnext => Except.ok.inj hnext ▸ hdefined⟩
      all_goals
        refine ⟨?_, fun _ hnext => Except.ok.inj hnext ▸ hdefined.concat hproto (by simp)⟩
        simp only [setProperty_eq env hdefined.ordinary hproto, hassign, Bool.false_eq_true,
          if_false]
  · have hvalue : value ≠ .undefined := fun heq => hdefined.own _ (heq ▸ hlookup)
    rw [getProperty_of_some env hdefined.ordinary hlookup]
    constructor
    · split
      · contradiction
      · rfl
    · rintro _ ⟨⟩
      exact hdefined

end

/-! ### The message -/

/-- Every field of every registered schema has a tag that the keys can carry. -/
def SmallTags (registry : Registry) : Prop :=
  ∀ name schema, getCompiledIibinSchemaInternal registry name = some schema →
    ∀ field ∈ schema.orderedFields, field.SmallTag

theorem smallTags_of_schemas
    (htags : ∀ entry ∈ registry.schemas, ∀ field ∈ entry.2.orderedFields, field.SmallTag) :
    SmallTags registry := by
  intro name schema hfound
  unfold getCompiledIibinSchemaInternal at hfound
  split at hfound
  · exact htags _ (mem_of_lookup_eq_some hfound)
  · cases hfound

theorem known_names (hnamed : schema.Named) (table : Schema) :
    ((known table schema.orderedFields).map fun pair => pair.1.nameInPhp).Nodup := by
  have hsub : ((known table schema.orderedFields).map fun pair => pair.1.nameInPhp).Sublist
      (schema.orderedFields.map FieldDef.nameInPhp) := by
    induction schema.orderedFields with
    | nil => exact .slnil
    | cons field rest ih =>
      rcases hlookup : table.fieldsByTag.lookup field.tag.toNat with _ | mirror
      · rw [known_none hlookup]
        exact ih.cons _
      · rw [known_some hlookup]
        exact ih.cons_cons _
  exact hnamed.distinct.sublist hsub

/-- A fold over all fields in which the unknown ones do nothing is a fold over the others. -/
theorem foldlM_known {step : Props → Iibin.FieldDef → Except Error Props}
    (hunknown : ∀ obj field, table.fieldsByTag.lookup field.tag.toNat = none →
      step obj field = .ok obj) (fields : List Iibin.FieldDef) (obj : Props) :
    fields.foldlM step obj = (known table fields).foldlM (fun obj pair => step obj pair.1) obj := by
  induction fields generalizing obj with
  | nil => rfl
  | cons field rest ih =>
    rw [List.foldlM_cons]
    rcases hlookup : table.fieldsByTag.lookup field.tag.toNat with _ | mirror
    · rw [known_none hlookup, hunknown obj field hlookup]
      exact ih obj
    · rw [known_some hlookup, List.foldlM_cons]
      exact congrArg _ (funext ih)

/-- The object after some of the fields: it has no other names, and nothing is `undefined`. -/
structure Made (before : List (Iibin.FieldDef × FieldDef)) (obj : Props) : Prop where
  defined : Defined obj
  names : ∀ name ∈ keys obj, name ∈ before.map fun pair => pair.1.nameInPhp

theorem deliverMember_view (hreads : Reads env schema table)
    (hformed : schema.WellFormed registry) (hnamed : schema.Named) (viewMessage : Viewer)
    {before after : List (Iibin.FieldDef × FieldDef)}
    (hsplit : known table schema.orderedFields = before ++ pair :: after) {obj : Props}
    (hmade : Made before obj) :
    deliverMember env host registry viewMessage table data obj pair.1 =
        viewMember env host registry viewMessage data obj pair ∧
      ∀ next, viewMember env host registry viewMessage data obj pair = .ok next →
        Made (before ++ [pair]) next := by
  have hpair : pair ∈ known table schema.orderedFields := by simp [hsplit]
  obtain ⟨hfield, hlookup⟩ := mem_known.mp hpair
  have hdistinct := known_names hnamed table
  rw [hsplit, List.map_append, List.map_cons, List.nodup_append] at hdistinct
  have hfree : pair.1.nameInPhp ∉ keys obj := fun hmem =>
    hdistinct.2.2 _ (hmade.names _ hmem) _ List.mem_cons_self rfl
  have hown := hreads.own _ hpair
  refine ⟨deliverMember_eq hlookup hown hmade.defined.ordinary hfree, fun next hnext => ?_⟩
  obtain ⟨hdefined, hadds⟩ :=
    viewMember_adds (hformed.fields _ hfield).known (ne_protoName hown) hmade.defined hnext
  refine ⟨hdefined, fun name hname => ?_⟩
  rw [List.map_append]
  rcases hadds name hname with hold | rfl
  · exact List.mem_append_left _ (hmade.names name hold)
  · exact List.mem_append_right _ List.mem_cons_self

/-- The two passes of `decode` over what arrives make the view of the message. -/
theorem deliver_view (hreads : Reads env schema table) (hformed : schema.WellFormed registry)
    (hnamed : schema.Named) (viewMessage : Viewer) :
    (schema.orderedFields.foldlM (deliverMember env host registry viewMessage table data) [] >>=
      table.fieldsByTag.foldlM (populateField env table.name)) =
    ((known table schema.orderedFields).foldlM
        (viewMember env host registry viewMessage data) [] >>=
      (known table schema.orderedFields).foldlM (viewDefault table.name)) := by
  obtain ⟨hfirst, hmade⟩ := foldlM_congr Made
    (fun before pair after obj hsplit hmade =>
      deliverMember_view hreads hformed hnamed viewMessage hsplit hmade)
    (⟨⟨rfl, nofun⟩, nofun⟩ : Made [] [])
  have hunknown : ∀ obj field, table.fieldsByTag.lookup field.tag.toNat = none →
      deliverMember env host registry viewMessage table data obj field = .ok obj := by
    intro obj field hlookup
    rw [deliverMember, deliverItem_unknown hlookup]
    exact foldlM_ok _ obj
  rw [foldlM_known hunknown, hfirst]
  rcases hobj : (known table schema.orderedFields).foldlM
    (viewMember env host registry viewMessage data) [] with error | obj
  · rfl
  · show table.fieldsByTag.foldlM _ obj = _
    rw [hreads.entries, List.foldlM_map]
    refine (foldlM_congr (fun _ obj => Defined obj) ?_ (hmade obj hobj).defined).1
    intro before pair after obj hsplit hdefined
    have hpair : pair ∈ known table schema.orderedFields := by simp [hsplit]
    exact populateField_eq (hreads.mirrors _ hpair) (hreads.own _ hpair) hdefined table.name

theorem encodeFields_of_message {depth : Nat} {bytes : Bytes}
    (hok : encodeMessageInternal host registry (depth + 1) schema data = .ok bytes) :
    encodeFields host registry (encodeMessageInternal host registry depth) data
      schema.orderedFields = .ok bytes := by
  cases data <;> first | exact hok | cases hok

/-- The fields of a message arrive, if nested messages do. -/
theorem Reads.arrives (hreads : Reads env schema table) {encodeMessage : MessageEncoder}
    {decodeNested : Decoder} {viewMessage : Viewer} (hshows : ∀ name schema table data bytes,
      registry.Has name schema →
      env.schemas.lookup name = some table → encodeMessage schema data = .ok bytes →
      bytes.length < 2 ^ 53 → decodeNested bytes table = viewMessage schema table data)
    (hfield : field ∈ schema.orderedFields) :
    Arrives env registry encodeMessage decodeNested viewMessage table field := by
  have hknown : ∀ mirror, table.fieldsByTag.lookup field.tag.toNat = some mirror →
      (field, mirror) ∈ known table schema.orderedFields :=
    fun mirror hlookup => mem_known.mpr ⟨hfield, hlookup⟩
  refine ⟨fun mirror hlookup => hreads.mirrors _ (hknown mirror hlookup), ?_⟩
  intro mirror hlookup hmessage nested value content hfound hcontent hless
  obtain ⟨nestedTable, hnested, htable⟩ := hreads.nested _ (hknown mirror hlookup) hmessage
  exact ⟨nestedTable, hnested, hshows _ _ _ value content hfound htable hcontent hless⟩

/-- **The other side of every message.** -/
theorem decode_view (hreach : Reachable NulFree registry) (hserves : Serves env registry)
    (htags : SmallTags registry) {depth stack : Nat} (hstack : depth ≤ stack) {name : Bytes}
    (hfound : registry.Has name schema) (hreads : Reads env schema table) {bytes : Bytes}
    (hok : encodeMessageInternal host registry depth schema data = .ok bytes)
    (hlength : bytes.length < 2 ^ 53) :
    decode env stack bytes table = viewMessage env host registry depth schema table data := by
  induction depth generalizing stack name schema table data bytes with
  | zero => cases hok
  | succ depth ih =>
    obtain ⟨stack, rfl⟩ := Nat.exists_eq_add_of_le' (Nat.zero_lt_of_lt hstack)
    have hformed := hreach.layered.wellFormed hfound
    have harrive : ∀ field ∈ schema.orderedFields, Arrives env registry
        (encodeMessageInternal host registry depth) (decode env stack)
        (viewMessage env host registry depth) table field := by
      intro field hfield
      refine hreads.arrives ?_ hfield
      intro name nested nestedTable value content hnested htable hcontent hless
      exact ih (Nat.le_of_succ_le_succ hstack) hnested
        (hserves name nested nestedTable hnested htable) hcontent hless
    rw [decode_fields stack hformed (htags name schema hfound) harrive
      (encodeFields_of_message hok) hlength, viewMessage]
    exact deliver_view hreads hformed (hreach.named hfound) _

/-! ### What can be missing -/

/-- The error for a required field. -/
def IsMissing (error : Error) : Prop := ∃ name schema, error = .requiredMissing name schema

/-- A view lacks nothing but what a required field lacks. -/
theorem viewMessage_ends (depth : Nat) (schema : CompiledSchema) (table : Schema) (data : Zval) :
    Ends IsMissing (fun _ => True) (viewMessage env host registry depth schema table data) := by
  induction depth generalizing schema table data with
  | zero => trivial
  | succ depth ih =>
    refine (Ends.foldlM_mem (fun _ => True) (fun pair _ obj _ => ?_) trivial).bind
      fun obj _ => Ends.foldlM_mem _ (fun pair _ obj _ => ?_) trivial
    · refine (Ends.mapM fun item _ => ?_).bind fun values _ => ?_
      · unfold viewItem
        cases pair.1.type
        case message =>
          dsimp only
          split
          · exact (ih _ _ item).bind fun _ _ => trivial
          · trivial
        all_goals trivial
      · split <;> trivial
    · unfold viewDefault
      split
      · trivial
      · split
        · exact ⟨_, _, rfl⟩
        · split <;> trivial

/-- **Every message arrives in JavaScript**, whatever the types of its fields and however deep
    it is nested, also for a reader that knows only some of its fields, at any level. The
    decoder makes the view of the message; if it throws, a required field is missing. -/
theorem js_reads_every_message (host : Host) (env : Env) (registry : Registry)
    (hreach : Reachable NulFree registry) (htags : SmallTags registry)
    (hserves : Serves env registry) (schemaName : Bytes) (schema : CompiledSchema) (table : Schema)
    (hfound : getCompiledIibinSchemaInternal registry schemaName = some schema)
    (hreads : Reads env schema table) (data : Zval) (bytes : Bytes)
    (hok : quicproIibinEncode host registry schemaName data = .ok bytes)
    (hlength : bytes.length < 2 ^ 53) (stack : Nat) (hstack : registry.schemas.length ≤ stack) :
    decode env stack bytes table =
        viewMessage env host registry registry.schemas.length schema table data ∧
      Ends IsMissing (fun _ => True) (decode env stack bytes table) := by
  have hencoded : encodeMessageInternal host registry registry.schemas.length schema data =
      .ok bytes := by
    simp only [quicproIibinEncode, hfound] at hok
    exact hok
  have hview := decode_view hreach hserves htags hstack hfound hreads hencoded hlength
  refine ⟨hview, ?_⟩
  rw [hview]
  exact viewMessage_ends _ schema table data

def pointsField : Iibin.FieldDef :=
  ⟨ascii "points", 1, .message, ⟨true, false, true, false⟩, none, false, some (ascii "Point"),
    none, .undef, 2⟩

def pointsEntry : FieldDef :=
  ⟨ascii "points", .message, ⟨true, false, true, false⟩, some (ascii "Point"), .undefined⟩

def lineTable : Schema := ⟨ascii "Line", [(1, pointsEntry)]⟩

/-- The reader knows no field of the points. -/
def lineEnv : Env := ⟨[(ascii "Point", ⟨ascii "Point", []⟩)], id, default⟩

def line : Zval :=
  .array [(.str (ascii "points"), .array (listTable
    [.array [(.str (ascii "color"), .string (ascii "BLUE")), (.str (ascii "x"), .long 3)],
      .array []]))]

theorem lineTable_reads :
    Reads lineEnv ⟨ascii "Line", [(1, pointsField)], [pointsField]⟩ lineTable := by
  have hknown : known lineTable [pointsField] = [(pointsField, pointsEntry)] := rfl
  refine ⟨rfl, ?_, ?_, ?_⟩ <;> simp only [hknown, List.forall_mem_singleton]
  · exact ⟨rfl, rfl, rfl, rfl, .inl ⟨rfl, rfl⟩⟩
  · decide
  · exact fun _ => ⟨_, rfl, rfl⟩

theorem line_serves : Serves lineEnv shapeRegistry := by
  intro name schema table hfound htable
  cases List.mem_singleton.mp (mem_of_lookup_eq_some htable)
  constructor <;> simp [known]

theorem js_reads_line :
    ∃ bytes, quicproIibinEncode default shapeRegistry (ascii "Line") line = .ok bytes ∧
      decode lineEnv 2 bytes lineTable =
        .ok [(ascii "points", .array [.object [], .object []])] := by
  obtain ⟨hview, -⟩ := js_reads_every_message default lineEnv shapeRegistry
    shapeRegistry_reachable (smallTags_of_schemas (by decide)) line_serves (ascii "Line") _
    lineTable rfl lineTable_reads line _ rfl (by decide) 2 (by decide)
  exact ⟨_, rfl, hview⟩

end QuicproAsync.Iibin.Js

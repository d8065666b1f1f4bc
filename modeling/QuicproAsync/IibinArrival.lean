import QuicproAsync.IibinDefaults
import QuicproAsync.IibinTransfer

/-!
# The arrival of a message

A message that the encoder accepts arrives as the deliveries of its fields, unless one
of them is rejected by the decoder. Fields of one name read the same value of the
message, and no value is accepted both for a singular scalar and for a repeated field,
so the deliveries never get in each other's way.
-/

namespace QuicproAsync.Iibin

open Php Fallible OrderedMap

variable {host : Host} {data : Zval} {bytes : Bytes} {items : List Zval} {registry : Registry}
  {encodeMessage : MessageEncoder} {field : FieldDef} {fields : List FieldDef} {asObject : Bool}

/-- The message has something to send for the field: a value that is not null and, for a
    repeated field, not an empty array. -/
def isGiven (data : Zval) (field : FieldDef) : Bool :=
  match readMember data field.nameInPhp with
  | none => false
  | some (.array []) => !field.flags.repeated
  | some value => !value.isNullish

/-- The deliveries of the fields of a message. -/
def messageDeliveries (host : Host) (registry : Registry) (data : Zval) (fields : List FieldDef) :
    List Delivery :=
  fields.flatMap fun field => deliveries field (arrivingItems host registry data field)

/-- The encoder accepts what the message has for each of the fields. -/
def Accepted (host : Host) (registry : Registry) (encodeMessage : MessageEncoder) (data : Zval)
    (fields : List FieldDef) : Prop :=
  ∀ field ∈ fields, ∃ bytes, encodeFieldInternal host registry encodeMessage field
    (readMember data field.nameInPhp) = .ok bytes

section

theorem isGiven_singular {given : Zval} (hvalue : readMember data field.nameInPhp = some given)
    (hgiven : given.isNullish = false) (hsingular : field.flags.repeated = false) :
    isGiven data field = true := by
  unfold isGiven
  split
  · rename_i hnone
    rw [hvalue] at hnone
    cases hnone
  · rw [hsingular]
    rfl
  · rename_i hsome
    rw [hvalue] at hsome
    cases hsome
    rw [hgiven]
    rfl

theorem isGiven_table {table : HashTable}
    (hvalue : readMember data field.nameInPhp = some (.array table)) (hne : table ≠ []) :
    isGiven data field = true := by
  cases table with
  | nil => exact absurd rfl hne
  | cons entry rest =>
    simp only [isGiven, hvalue]
    rfl

section

variable (hok : encodeFieldInternal host registry encodeMessage field
  (readMember data field.nameInPhp) = .ok bytes)

include hok

/-- What is sent for an accepted field. -/
theorem sentItems_cases :
    (isGiven data field = false ∧ sentItems registry field (readMember data field.nameInPhp) = []) ∨
    (isGiven data field = true ∧ field.flags.repeated = false ∧ ∃ given,
      readMember data field.nameInPhp = some given ∧ given.isNullish = false ∧
      sentItems registry field (readMember data field.nameInPhp) = [numbered registry field given] ∧
      encodeSingleFieldValue host registry encodeMessage field given = .ok bytes) ∨
    (isGiven data field = true ∧ field.flags.repeated = true ∧ ∃ table,
      readMember data field.nameInPhp = some (.array table) ∧ table ≠ [] ∧
      sentItems registry field (readMember data field.nameInPhp) =
        table.map fun entry => if field.flags.packed then entry.2
          else numbered registry field entry.2) := by
  rcases encodeFieldInternal_cases hok with ⟨hnullish, -, -⟩ |
    ⟨given, hvalue, hgiven, hsingular, hsingle⟩ | ⟨hvalue, hrepeated, -⟩ |
    ⟨table, hvalue, hne, hrepeated, hpacked, -⟩ | ⟨table, hvalue, hne, hrepeated, hunpacked, -⟩
  · refine .inl ⟨?_, sentItems_nullish hnullish⟩
    unfold isGiven
    split
    · rfl
    · rename_i hvalue
      cases hnullish _ hvalue
    · rename_i hvalue
      rw [hnullish _ hvalue]
      rfl
  · refine .inr (.inl ⟨isGiven_singular hvalue hgiven hsingular, hsingular, given, hvalue, hgiven,
      ?_, hsingle⟩)
    rw [hvalue, sentItems_singular registry hgiven hsingular]
  · refine .inl ⟨?_, by rw [hvalue, sentItems_empty registry hrepeated]⟩
    simp only [isGiven, hvalue, hrepeated]
    rfl
  · refine .inr (.inr ⟨isGiven_table hvalue hne, hrepeated, table, hvalue, hne, ?_⟩)
    simp only [hvalue, sentItems_packed registry table hrepeated hpacked, hpacked, if_true]
  · refine .inr (.inr ⟨isGiven_table hvalue hne, hrepeated, table, hvalue, hne, ?_⟩)
    simp only [hvalue, sentItems_unpacked registry table hrepeated hunpacked, hunpacked,
      Bool.false_eq_true, if_false]

theorem arrivingItems_eq_nil_iff :
    arrivingItems host registry data field = [] ↔ isGiven data field = false := by
  rw [arrivingItems, List.map_eq_nil_iff]
  rcases sentItems_cases hok with ⟨hgiven, hsent⟩ | ⟨hgiven, -, given, -, -, hsent, -⟩ |
    ⟨hgiven, -, table, -, hne, hsent⟩ <;> rw [hgiven, hsent]
  · simp
  · simp
  · simp [hne]

theorem isGiven_of_arriving (hne : arrivingItems host registry data field ≠ []) :
    isGiven data field = true := by
  cases hgiven : isGiven data field with
  | false => exact absurd ((arrivingItems_eq_nil_iff hok).mpr hgiven) hne
  | true => rfl

theorem arriving_of_isGiven (hgiven : isGiven data field = true) :
    arrivingItems host registry data field ≠ [] := by
  rw [Ne, arrivingItems_eq_nil_iff hok, hgiven]
  decide

end

/-- An array is no value for a scalar field. -/
theorem encodeSingleFieldValue_array (hpackable : isPackable field.type = true)
    {table : HashTable} :
    encodeSingleFieldValue host registry encodeMessage field (.array table) ≠ .ok bytes := by
  intro hok
  obtain ⟨hcheck, payload, hpayload, -⟩ := encodeSingleFieldValue_ok hok
  unfold checkValueType at hcheck
  unfold encodeValue at hpayload
  cases htype : field.type <;> rw [htype] at hcheck hpayload hpackable
  case enum => cases hpayload
  case unknown | string | bytes | message => cases hpackable
  all_goals cases hcheck

/-- Fields of one name for which something is sent are all singular or all repeated. -/
theorem repeated_eq_of_name (haccepted : Accepted host registry encodeMessage data fields)
    (hfree : ∀ field ∈ fields, isGiven data field = true → isPackable field.type = true)
    {first second : FieldDef} (hfirst : first ∈ fields) (hsecond : second ∈ fields)
    (hname : first.nameInPhp = second.nameInPhp) (hgiven : isGiven data first = true)
    (hgiven' : isGiven data second = true) : first.flags.repeated = second.flags.repeated := by
  have hmixed : ∀ singular ∈ fields, ∀ repeated ∈ fields, singular.flags.repeated = false →
      repeated.flags.repeated = true → singular.nameInPhp = repeated.nameInPhp →
      isGiven data singular = true → isGiven data repeated = true → False := by
    intro singular hsingular repeated hrepeated hflag hflag' hsame hgiven hgiven'
    obtain ⟨bytes, hok⟩ := haccepted singular hsingular
    obtain ⟨bytes', hok'⟩ := haccepted repeated hrepeated
    rcases sentItems_cases hok with ⟨hnot, -⟩ | ⟨-, -, given, hvalue, -, -, hsingle⟩ |
      ⟨-, hother, -⟩
    · rw [hgiven] at hnot
      cases hnot
    · rcases sentItems_cases hok' with ⟨hnot, -⟩ | ⟨-, hother, -⟩ | ⟨-, -, table, hvalue', -⟩
      · rw [hgiven'] at hnot
        cases hnot
      · rw [hflag'] at hother
        cases hother
      · rw [hsame, hvalue'] at hvalue
        cases hvalue
        exact encodeSingleFieldValue_array (hfree singular hsingular hgiven) hsingle
    · rw [hflag] at hother
      cases hother
  cases hone : first.flags.repeated <;> cases htwo : second.flags.repeated
  · rfl
  · exact (hmixed first hfirst second hsecond hone htwo hname hgiven hgiven').elim
  · exact (hmixed second hsecond first hfirst htwo hone hname.symm hgiven' hgiven).elim
  · rfl

end

/-! ### Deliveries of a message -/

theorem mem_deliveries {delivery : Delivery} (hmem : delivery ∈ deliveries field items) :
    items ≠ [] ∧ ((field.flags.repeated = true ∧ delivery = .list field items) ∨
      (field.flags.repeated = false ∧ ∃ item ∈ items, delivery = .value field item)) := by
  unfold deliveries at hmem
  split at hmem
  · rename_i hrepeated
    split at hmem
    · cases hmem
    · rename_i hne
      exact ⟨hne, .inl ⟨hrepeated, List.mem_singleton.mp hmem⟩⟩
  · rename_i hsingular
    obtain ⟨item, hitem, rfl⟩ := List.mem_map.mp hmem
    exact ⟨List.ne_nil_of_mem hitem, .inr ⟨by simpa using hsingular, item, hitem, rfl⟩⟩

theorem str_injective_valueKey {left right : Bytes} (hkey : valueKey asObject left = .str right) :
    left = right := by
  unfold valueKey symtableKey at hkey
  split at hkey
  · exact Key.str.inj hkey
  · split at hkey
    · cases hkey
    · exact Key.str.inj hkey

theorem FieldDef.name_of_entryKey {name : Bytes} (hkey : field.entryKey asObject = .str name) :
    field.nameInPhp = name := by
  unfold FieldDef.entryKey at hkey
  split at hkey
  · exact Key.str.inj hkey
  · exact str_injective_valueKey hkey

theorem entryKey_of_mem (asObject : Bool) {delivery : Delivery}
    (hmem : delivery ∈ deliveries field items) :
    delivery.key asObject = field.entryKey asObject := by
  rcases (mem_deliveries hmem).2 with ⟨hrepeated, rfl⟩ | ⟨hsingular, item, -, rfl⟩
  · rw [FieldDef.entryKey, if_pos hrepeated]
    rfl
  · rw [FieldDef.entryKey, hsingular]
    rfl

theorem deliveries_ne_nil (hitems : items ≠ []) :
    deliveries field items ≠ [] := by
  unfold deliveries
  split
  · exact List.cons_ne_nil _ _
  · simpa using hitems

section

/-- The deliveries of an accepted message can be made, one after the other. -/
theorem messageDeliveries_compatible (haccepted : Accepted host registry encodeMessage data fields)
    (hfree : ∀ field ∈ fields, isGiven data field = true → isPackable field.type = true) :
    Compatible asObject (messageDeliveries host registry data fields) [] := by
  have hgiven : ∀ field ∈ fields, arrivingItems host registry data field ≠ [] →
      isGiven data field = true := by
    intro field hfield hne
    obtain ⟨bytes, hok⟩ := haccepted field hfield
    exact isGiven_of_arriving hok hne
  constructor
  · intro delivery _ _
    exact IsListed.none
  · intro first hfirst second hsecond hkey
    obtain ⟨left, hleft, hfirst⟩ := List.mem_flatMap.mp hfirst
    obtain ⟨right, hright, hsecond⟩ := List.mem_flatMap.mp hsecond
    obtain ⟨hne, hfirst⟩ := mem_deliveries hfirst
    obtain ⟨hne', hsecond⟩ := mem_deliveries hsecond
    have hsame := fun hname => repeated_eq_of_name haccepted hfree hleft hright hname
      (hgiven left hleft hne) (hgiven right hright hne')
    rcases hfirst with ⟨hflag, rfl⟩ | ⟨hflag, item, -, rfl⟩ <;>
      rcases hsecond with ⟨hflag', rfl⟩ | ⟨hflag', item', -, rfl⟩
    · rfl
    · rw [hsame (str_injective_valueKey hkey.symm).symm, hflag'] at hflag
      cases hflag
    · rw [hsame (str_injective_valueKey hkey), hflag'] at hflag
      cases hflag
    · rfl

theorem isPackable_of_rejection (hknown : field.type ≠ .unknown)
    (hnone : field.rejection asObject = none) : isPackable field.type = true := by
  rw [layout_ne_delimited_iff hknown]
  intro hdelimited
  rw [rejection_delimited asObject hdelimited] at hnone
  cases hnone

theorem foldlM_arrive_eq (hfree : ∀ field ∈ fields, arrivingItems host registry data field ≠ [] →
      field.rejection asObject = none) (entries : HashTable) :
    fields.foldlM (arrive asObject host registry data) entries =
      (messageDeliveries host registry data fields).foldlM (Delivery.apply asObject) entries := by
  induction fields generalizing entries with
  | nil => rfl
  | cons field rest ih =>
    have hhead : arrive asObject host registry data entries field =
        (deliveries field (arrivingItems host registry data field)).foldlM
          (Delivery.apply asObject) entries := by
      by_cases hitems : arrivingItems host registry data field = []
      · rw [hitems, deliveries_nil, arrive_empty (List.map_eq_nil_iff.mp hitems)]
        rfl
      · exact arrive_delivered (hfree field List.mem_cons_self hitems) entries
    rw [List.foldlM_cons, hhead, messageDeliveries, List.flatMap_cons, List.foldlM_append]
    congr 1
    funext entries'
    exact ih (fun other hother => hfree other (List.mem_cons_of_mem _ hother)) entries'

/-- The fields of a message that the decoder does not reject arrive as a log. -/
theorem foldlM_arrive_ok (haccepted : Accepted host registry encodeMessage data fields)
    (hknown : ∀ field ∈ fields, field.type ≠ .unknown)
    (hfree : ∀ field ∈ fields, isGiven data field = true → field.rejection asObject = none) :
    fields.foldlM (arrive asObject host registry data) [] =
      .ok (replay
        ((messageDeliveries host registry data fields).map (Delivery.entry asObject)) []) := by
  have hgiven : ∀ field ∈ fields, arrivingItems host registry data field ≠ [] →
      field.rejection asObject = none := by
    intro field hfield hne
    obtain ⟨bytes, hok⟩ := haccepted field hfield
    exact hfree field hfield (isGiven_of_arriving hok hne)
  have hpackable : ∀ field ∈ fields, isGiven data field = true → isPackable field.type = true :=
    fun field hfield hgiven => isPackable_of_rejection (hknown field hfield)
      (hfree field hfield hgiven)
  rw [foldlM_arrive_eq hgiven, foldlM_apply_eq (messageDeliveries_compatible haccepted hpackable)]

theorem split_at_first {p : FieldDef → Prop} (hexists : ∃ field ∈ fields, p field) :
    ∃ before first after, fields = before ++ first :: after ∧ p first ∧
      ∀ other ∈ before, ¬ p other := by
  classical
  obtain ⟨first, hfirst⟩ := Option.isSome_iff_exists.mp (List.find?_isSome.mpr
    (show ∃ field ∈ fields, decide (p field) = true by simpa using hexists))
  obtain ⟨hhere, before, after, hsplit, hbefore⟩ := List.find?_eq_some_iff_append.mp hfirst
  exact ⟨before, first, after, hsplit, of_decide_eq_true hhere,
    fun other hother => by simpa using hbefore other hother⟩

/-- The first rejected field decides how the decoding of the message ends. -/
theorem foldlM_arrive_error (haccepted : Accepted host registry encodeMessage data fields)
    (hknown : ∀ field ∈ fields, field.type ≠ .unknown)
    (hrejected : ∃ field ∈ fields, isGiven data field = true ∧ field.rejection asObject ≠ none) :
    ∃ field ∈ fields, ∃ fault, field.rejection asObject = some fault ∧
      fields.foldlM (arrive asObject host registry data) [] = .error fault := by
  obtain ⟨before, field, after, hsplit, ⟨hgiven, hne⟩, hbefore⟩ := split_at_first hrejected
  obtain ⟨fault, hfault⟩ := Option.ne_none_iff_exists'.mp hne
  have hmem : field ∈ fields := by simp [hsplit]
  refine ⟨field, hmem, fault, hfault, ?_⟩
  obtain ⟨bytes, hok⟩ := haccepted field hmem
  have hitems : sentItems registry field (readMember data field.nameInPhp) ≠ [] := by
    simpa [arrivingItems] using arriving_of_isGiven hok hgiven
  -- the fields before it arrive
  have hfirst : before.foldlM (arrive asObject host registry data) [] = .ok _ :=
    foldlM_arrive_ok (fun other hother => haccepted other (by simp [hsplit, hother]))
      (fun other hother => hknown other (by simp [hsplit, hother])) fun other hother hothergiven =>
        not_not.mp fun hnot => hbefore other hother ⟨hothergiven, hnot⟩
  rw [hsplit, List.foldlM_append, hfirst]
  show ((field :: after).foldlM (arrive asObject host registry data) _) = _
  rw [List.foldlM_cons, arrive_rejected hitems hfault]
  rfl

end

/-! ### The outcome of decoding -/

/-- The entries that the fields of a message leave behind. -/
def arrived (asObject : Bool) (host : Host) (registry : Registry) (data : Zval)
    (fields : List FieldDef) : HashTable :=
  replay ((messageDeliveries host registry data fields).map (Delivery.entry asObject)) []

/-- The decoder rejects no field for which the message has something. -/
def NothingRejected (asObject : Bool) (schema : CompiledSchema) (data : Zval) : Prop :=
  ∀ field ∈ schema.orderedFields, isGiven data field = true → field.rejection asObject = none

/-- The check for required fields finds each of them: it looks for the name as a string,
    so a singular field of an array must not have a name that is filed as an integer, and
    the list of a repeated field must not be empty; or the name was bound before by the
    default of another field of this name. -/
def RequiredFound (asObject : Bool) (schema : CompiledSchema) (data : Zval) : Prop :=
  ∀ field ∈ schema.orderedFields, field.flags.required = true →
    (if field.flags.repeated then isGiven data field = true
      else asObject = true ∨ handleNumericStr field.nameInPhp = none) ∨
    ∃ earlier ∈ schema.orderedFields, earlier.tag.toNat < field.tag.toNat ∧
      earlier.nameInPhp = field.nameInPhp ∧ earlier.hasFallback

theorem valueKey_eq_str_iff {name : Bytes} :
    valueKey asObject name = .str name ↔ asObject = true ∨ handleNumericStr name = none := by
  unfold valueKey symtableKey
  cases asObject <;> rcases handleNumericStr name with _ | n <;> simp

section

theorem isGiven_congr {left right : FieldDef} (hname : left.nameInPhp = right.nameInPhp)
    (hflag : left.flags.repeated = right.flags.repeated) :
    isGiven data left = isGiven data right := by
  simp only [isGiven, hname, hflag]

theorem isGiven_of_required (hok : encodeFieldInternal host registry encodeMessage field
      (readMember data field.nameInPhp) = .ok bytes) (hrequired : field.flags.required = true)
    (hsingular : field.flags.repeated = false) :
    isGiven data field = true := by
  rcases encodeFieldInternal_cases hok with ⟨-, hoptional, -⟩ | ⟨given, hvalue, hgiven, -⟩ |
    ⟨-, hrepeated, -⟩ | ⟨_, -, -, hrepeated, -⟩ | ⟨_, -, -, hrepeated, -⟩
  · rw [hrequired] at hoptional
    cases hoptional
  · exact isGiven_singular hvalue hgiven hsingular
  all_goals
    rw [hsingular] at hrepeated
    cases hrepeated

theorem array_of_required (hok : encodeFieldInternal host registry encodeMessage field
      (readMember data field.nameInPhp) = .ok bytes) (hrequired : field.flags.required = true)
    (hrepeated : field.flags.repeated = true) :
    ∃ table, readMember data field.nameInPhp = some (.array table) := by
  rcases encodeFieldInternal_cases hok with ⟨-, hoptional, -⟩ | ⟨_, -, -, hsingular, -⟩ |
    ⟨hvalue, -⟩ | ⟨table, hvalue, -⟩ | ⟨table, hvalue, -⟩
  · rw [hrequired] at hoptional
    cases hoptional
  · rw [hrepeated] at hsingular
    cases hsingular
  · exact ⟨[], hvalue⟩
  · exact ⟨table, hvalue⟩
  · exact ⟨table, hvalue⟩

theorem messageDeliveries_split (before after : List FieldDef) (field : FieldDef) :
    messageDeliveries host registry data (before ++ field :: after) =
      messageDeliveries host registry data before ++
        (deliveries field (arrivingItems host registry data field) ++
          messageDeliveries host registry data after) := by
  rw [messageDeliveries, List.flatMap_append, List.flatMap_cons]
  rfl

/-- Fields that are filed elsewhere do not touch a key. -/
theorem lookup_replay_others (asObject : Bool) {key : Key}
    (hothers : ∀ other ∈ fields, other.entryKey asObject ≠ key) (entries : HashTable) :
    (replay ((messageDeliveries host registry data fields).map (Delivery.entry asObject))
      entries).lookup key = entries.lookup key := by
  apply lookup_replay_of_not_mem
  intro change hchange hkey
  obtain ⟨delivery, hdelivery, rfl⟩ := List.mem_map.mp hchange
  obtain ⟨other, hother, hdelivery⟩ := List.mem_flatMap.mp hdelivery
  exact hothers other hother ((entryKey_of_mem asObject hdelivery).symm.trans hkey)

/-- The keys that are bound: those of the fields for which something was sent. -/
theorem isSome_arrived (haccepted : Accepted host registry encodeMessage data fields) (key : Key) :
    ((arrived asObject host registry data fields).lookup key).isSome ↔
      ∃ field ∈ fields, isGiven data field = true ∧ field.entryKey asObject = key := by
  rw [arrived, isSome_lookup_replay]
  simp only [List.lookup_nil, Option.isSome_none, Bool.false_eq_true, false_or, List.mem_map,
    messageDeliveries, List.mem_flatMap]
  constructor
  · rintro ⟨_, ⟨delivery, ⟨field, hfield, hdelivery⟩, rfl⟩, hkey⟩
    obtain ⟨bytes, hok⟩ := haccepted field hfield
    exact ⟨field, hfield, isGiven_of_arriving hok (mem_deliveries hdelivery).1,
      (entryKey_of_mem asObject hdelivery).symm.trans hkey⟩
  · rintro ⟨field, hfield, hgiven, hkey⟩
    obtain ⟨bytes, hok⟩ := haccepted field hfield
    obtain ⟨delivery, hdelivery⟩ :=
      List.exists_mem_of_ne_nil _ (deliveries_ne_nil (arriving_of_isGiven hok hgiven))
    exact ⟨_, ⟨delivery, ⟨field, hfield, hdelivery⟩, rfl⟩,
      (entryKey_of_mem asObject hdelivery).trans hkey⟩

/-- Which required fields the check finds. -/
theorem isSome_arrived_required (haccepted : Accepted host registry encodeMessage data fields)
    (hfree : ∀ field ∈ fields, isGiven data field = true → isPackable field.type = true)
    (hfield : field ∈ fields) (hrequired : field.flags.required = true) :
    ((arrived asObject host registry data fields).lookup (.str field.nameInPhp)).isSome ↔
      if field.flags.repeated then isGiven data field = true
      else asObject = true ∨ handleNumericStr field.nameInPhp = none := by
  obtain ⟨bytes, hok⟩ := haccepted field hfield
  rw [isSome_arrived haccepted]
  cases hrepeated : field.flags.repeated with
  | true =>
    rw [if_pos rfl]
    constructor
    · rintro ⟨other, hother, hgiven, hkey⟩
      have hname := FieldDef.name_of_entryKey hkey
      have hflag : other.flags.repeated = true := by
        cases hsingular : other.flags.repeated with
        | true => rfl
        | false =>
          obtain ⟨table, htable⟩ := array_of_required hok hrequired hrepeated
          obtain ⟨bytes', hok'⟩ := haccepted other hother
          rcases sentItems_cases hok' with ⟨hnot, -⟩ | ⟨-, -, given, hvalue, -, -, hsingle⟩ |
            ⟨-, hlist, -⟩
          · rw [hgiven] at hnot
            cases hnot
          · rw [hname, htable] at hvalue
            cases hvalue
            exact absurd hsingle (encodeSingleFieldValue_array (hfree other hother hgiven))
          · rw [hsingular] at hlist
            cases hlist
      rwa [← isGiven_congr hname (hflag.trans hrepeated.symm)]
    · intro hgiven
      exact ⟨field, hfield, hgiven, by rw [FieldDef.entryKey, if_pos hrepeated]⟩
  | false =>
    rw [if_neg Bool.false_ne_true]
    have hgiven := isGiven_of_required hok hrequired hrepeated
    constructor
    · rintro ⟨other, hother, hothergiven, hkey⟩
      have hname := FieldDef.name_of_entryKey hkey
      have hflag := repeated_eq_of_name haccepted hfree hother hfield hname hothergiven hgiven
      rw [FieldDef.entryKey, hflag, hrepeated, if_neg Bool.false_ne_true, hname] at hkey
      exact valueKey_eq_str_iff.mp hkey
    · intro hkey
      refine ⟨field, hfield, hgiven, ?_⟩
      rw [FieldDef.entryKey, hrepeated, if_neg Bool.false_ne_true]
      exact valueKey_eq_str_iff.mpr hkey

end

section

variable {schemaName : Bytes} {schema : CompiledSchema}

theorem NothingRejected.isPackable (hfree : NothingRejected asObject schema data)
    (hformed : schema.WellFormed registry) :
    ∀ field ∈ schema.orderedFields, isGiven data field = true → isPackable field.type = true :=
  fun field hfield hgiven => isPackable_of_rejection (hformed.fields field hfield).known
    (hfree field hfield hgiven)

theorem quicproIibinEncode_accepted (hfound : registry.Has schemaName schema)
    (hok : quicproIibinEncode host registry schemaName data = .ok bytes) :
    ∃ depth, Accepted host registry (encodeMessageInternal host registry depth) data
      schema.orderedFields := by
  obtain ⟨depth, -, -, hfields⟩ := quicproIibinEncode_ok hfound hok
  exact ⟨depth, encodeFields_ok.mp ⟨bytes, hfields⟩⟩

variable {ok : Bytes → Prop}

/-- A message is encoded if each of its fields is. -/
theorem quicproIibinEncode_iff (host : Host) (hreach : Reachable ok registry)
    (hfound : registry.Has schemaName schema) (hmessage : isMessage data = true) :
    ∃ depth, (∃ bytes, quicproIibinEncode host registry schemaName data = .ok bytes) ↔
      Accepted host registry (encodeMessageInternal host registry depth) data
        schema.orderedFields := by
  obtain ⟨depth, hdepth⟩ : ∃ depth, registry.schemas.length = depth + 1 :=
    Nat.exists_eq_add_one.mpr (Nat.zero_lt_of_lt (position_lt_length hreach.layered hfound))
  refine ⟨depth, ?_⟩
  rw [quicproIibinEncode_eq hfound hdepth hmessage]
  exact encodeFields_ok

variable (hreach : Reachable ok registry) (hfound : registry.Has schemaName schema)
  (htags : schema.SmallTags) (hok : quicproIibinEncode host registry schemaName data = .ok bytes)

include hreach hfound htags hok

/-- With the schema it was encoded with, every field of the message is known. -/
theorem message_own (hlength : bytes.length < 2 ^ 64) (asObject : Bool) :
    Wire.message ⟨host, registry, .asWritten, asObject⟩ registry.schemas.length schema bytes
        (container asObject []) =
      Wire.lift ((schema.orderedFields.foldlM (arrive asObject host registry data) []) >>=
        fun entries => .ok (container asObject entries)) := by
  have hformed := hreach.layered.wellFormed hfound
  have hknown : ∀ field ∈ schema.orderedFields, schema.fieldsByTag.lookup field.tag = some field :=
    fun field hfield => (hformed.byTag field.tag field).mpr ⟨hfield, rfl⟩
  have hmeaning := message_encoded hreach hfound htags hok hlength
    (fun field hfield found hlookup => Option.some.inj (hlookup.symm.trans (hknown field hfield)))
    asObject
  rwa [List.filter_eq_self.mpr fun field hfield => by rw [hknown field hfield]; rfl] at hmeaning

theorem quicproIibinDecode_own {buffer : Buffer} (hbytes : buffer.bytes = bytes) {fuel : Nat}
    (hfuel : bytes.length ≤ fuel) (asObject : Bool) :
    quicproIibinDecode ⟨host, registry, .asWritten, asObject⟩ fuel schemaName buffer =
      finish schema ((schema.orderedFields.foldlM (arrive asObject host registry data) []) >>=
        fun entries => .ok (container asObject entries)) := by
  subst hbytes
  have hhigh := buffer.high
  exact quicproIibinDecode_eq buffer _ hfuel hfound
    (message_own hreach hfound htags hok (by omega) asObject)

/-- **What becomes of an encoded message** that is decoded with the schema it was encoded
    with. -/
theorem quicproIibinDecode_outcome {buffer : Buffer} (hbytes : buffer.bytes = bytes) {fuel : Nat}
    (hfuel : bytes.length ≤ fuel) (asObject : Bool) :
    (¬ NothingRejected asObject schema data ∧ ∃ field ∈ schema.orderedFields, ∃ fault,
      field.rejection asObject = some fault ∧
      quicproIibinDecode ⟨host, registry, .asWritten, asObject⟩ fuel schemaName buffer =
        .error fault) ∨
    (NothingRejected asObject schema data ∧ ¬ RequiredFound asObject schema data ∧ ∃ error,
      quicproIibinDecode ⟨host, registry, .asWritten, asObject⟩ fuel schemaName buffer =
        .error (.exception error)) ∨
    (NothingRejected asObject schema data ∧ RequiredFound asObject schema data ∧ ∃ entries,
      quicproIibinDecode ⟨host, registry, .asWritten, asObject⟩ fuel schemaName buffer =
        .ok (container asObject entries, none) ∧
      (keys entries).Nodup ∧
      ∀ key, entries.lookup key =
        ((arrived asObject host registry data schema.orderedFields).lookup key).or
          (fallback schema.orderedFields key)) := by
  have hformed := hreach.layered.wellFormed hfound
  have hknown : ∀ field ∈ schema.orderedFields, field.type ≠ .unknown :=
    fun field hfield => (hformed.fields field hfield).known
  obtain ⟨depth, haccepted⟩ := quicproIibinEncode_accepted hfound hok
  rw [quicproIibinDecode_own hreach hfound htags hok hbytes hfuel asObject]
  by_cases hfree : NothingRejected asObject schema data
  · right
    have hpackable := hfree.isPackable hformed
    have hsupplied : Supplied (arrived asObject host registry data schema.orderedFields)
        schema.orderedFields ↔ RequiredFound asObject schema data := by
      rw [supplied_iff hformed.sorted]
      refine forall_congr' fun field => forall_congr' fun hfield => ?_
      refine forall_congr' fun hrequired => ?_
      rw [isSome_arrived_required haccepted hpackable hfield hrequired]
    rw [foldlM_arrive_ok haccepted hknown hfree, ← arrived]
    rcases populate_fields schema.schemaName asObject schema.orderedFields
        (arrived asObject host registry data schema.orderedFields) with
      ⟨hall, entries, hfold, hlookup, hnodup⟩ | ⟨hnot, error, hfold⟩
    · refine .inr ⟨hfree, hsupplied.mp hall, entries, ?_, ?_, hlookup⟩
      · simp only [finish, bind, Except.bind, populateDefaultValuesAndCheckRequired, hfold]
      · exact hnodup (nodup_keys_replay _ List.nodup_nil)
    · refine .inl ⟨hfree, hnot ∘ hsupplied.mpr, error, ?_⟩
      simp only [finish, bind, Except.bind, populateDefaultValuesAndCheckRequired, hfold]
  · left
    have hrejected : ∃ field ∈ schema.orderedFields, isGiven data field = true ∧
        field.rejection asObject ≠ none := by
      simpa [NothingRejected] using hfree
    obtain ⟨field, hfield, fault, hfault, hfold⟩ :=
      foldlM_arrive_error haccepted hknown hrejected
    refine ⟨hfree, field, hfield, fault, hfault, ?_⟩
    rw [hfold]
    rfl

end

end QuicproAsync.Iibin

import QuicproAsync.IibinDelivery
import QuicproAsync.IibinWire

/-!
# `iibin_decoding.c`: how long the stored values live

`IibinDecoding` follows the values and leaves out who owns them. This is the decoder with the
owners, as far as `decode_message_internal` can get them wrong: at line 250 and line 257 it
gives back a local with `zval_ptr_dtor` that it has just stored. A property of an object takes
a count of its own (`zend_update_property`), so that the stored value stays; an entry of an
array does not (`zend_hash_str_update`, `add_assoc_zval_ex`), so that the memory of an array or
a string is given back while the entry still points to it. A scalar is copied and not affected,
and the packed branch stores its array without giving it back.

The decoder on values is the view of this one that is left when lifetimes are ignored: the
run here follows the run there, failures included, until it uses memory that has been given
back (`quicproIibinDecodeTracked_follows`), and an entry that dangles is never repaired
(`decodeLoopTracked_dangling`). The two are the same as long as nothing can be given back,
which is so for every object and for arrays whose readable fields are all singular scalars
(`quicproIibinDecodeTracked_quiet`).
-/

namespace QuicproAsync.Iibin

open Php Fallible ScanLoop OrderedMap

/-- What an entry of the result points to: a value, or memory that has been given back. -/
inductive Pointee where
  | live (value : Zval)
  | dangling

/-- A failure, or the use of memory that has been given back. -/
inductive Trouble where
  | fault (fault : Fault)
  | useAfterFree

def track : Except Fault α → Except Trouble α
  | .ok a => .ok a
  | .error fault => .error (.fault fault)

/-- The array or object being filled. -/
structure Filling where
  asObject : Bool
  slots : List (Key × Pointee)

def Filling.put (key : Key) (slot : Pointee) (filling : Filling) : Filling :=
  { filling with slots := assign key slot filling.slots }

/-- `Z_REFCOUNTED`. -/
def isRefcounted : Zval → Bool
  | .string _ | .array _ | .object _ | .resource _ | .reference _ => true
  | .undef | .null | .bool _ | .long _ | .double _ => false

/-- What a stored value is after the `zval_ptr_dtor` of the local it was stored from. -/
def Pointee.afterDtor (asObject : Bool) : Pointee → Pointee
  | .dangling => .dangling
  | .live value => if asObject = false ∧ isRefcounted value = true then .dangling else .live value

/-- `add_next_index_zval`. An array with an item that dangles counts as one that does. -/
def Pointee.addNext : (sub item : Pointee) → Except Trouble Pointee
  | .dangling, _ => .error .useAfterFree
  | .live (.array table), .live value => .ok (.live (.array (nextIndexInsert table value)))
  | .live (.array _), .dangling => .ok .dangling
  | .live _, _ => .error (.fault .confusion)

/-- Lines 242 to 258. -/
def storeTracked (field : FieldDef) (value : Pointee) (filling : Filling) :
    Except Trouble Filling :=
  if field.flags.repeated then
    match filling.slots.lookup (.str field.nameInPhp) with
    | none => do
        let newArray ← Pointee.addNext (.live (.array [])) value
        .ok (filling.put (.str field.nameInPhp) (newArray.afterDtor filling.asObject))
    | some sub => do
        let sub ← sub.addNext value
        .ok (filling.put (.str field.nameInPhp) sub)
  else
    let key := valueKey filling.asObject field.nameInPhp
    -- what was stored before is destroyed
    match filling.slots.lookup key with
    | some .dangling => .error .useAfterFree
    | _ => .ok (filling.put key (value.afterDtor filling.asObject))

def Pointee.entry? : Key × Pointee → Option (Key × Zval)
  | (key, .live value) => some (key, value)
  | (_, .dangling) => none

/-- A nested message as a value: it dangles if something in it does. -/
def Filling.seal (filling : Filling) : Pointee :=
  match filling.slots.mapM Pointee.entry? with
  | some entries => .live (container filling.asObject entries)
  | none => .dangling

abbrev TrackedDecoder := Nat → Nat → CompiledSchema → Filling → Except Trouble (Nat × Filling)

section

variable (ctx : DecodeContext) (decodeMessage : TrackedDecoder)

/-- Lines 117 to 142. -/
def decodeMessageValueTracked (ptr bufEnd : Nat) (field : FieldDef) :
    Except Trouble (Nat × Pointee) :=
  match decodeVarint ctx.memory ptr bufEnd with
  | none => .error (.fault .silent)
  | some (len, ptr) =>
    if lengthLimit ctx bufEnd < ptrAdd ptr len.toNat then .error (.fault .silent)
    else
      let nestedBufEnd := ptrAdd ptr len.toNat
      let schemaName := field.messageTypeNameIfNested.getD []
      match getCompiledIibinSchemaInternal ctx.registry schemaName with
      | none => .error (.fault (.exception (.decodeNestedNotDefined schemaName field.nameInPhp)))
      | some nestedSchema => do
          let (_, out) ← decodeMessage ptr nestedBufEnd nestedSchema ⟨ctx.decodeAsObject, []⟩
          .ok (nestedBufEnd, out.seal)

/-- `decode_value_to_zval`: only a nested message has entries of its own. -/
def decodeValueTracked (ptr bufEnd : Nat) (field : FieldDef) (wireType : BitVec 32) :
    Except Trouble (Nat × Pointee) :=
  if field.type = .message ∧ ¬ (wireType ≠ field.wireType ∧ field.flags.packed = false) then
    decodeMessageValueTracked ctx decodeMessage ptr bufEnd field
  else do
    let (ptr, value) ← track (decodeValueToZval ctx (fun _ _ _ _ => .error .depth) ptr bufEnd field
      wireType)
    .ok (ptr, .live value)

def decodePackedItemTracked (field : FieldDef) (packedEnd ptr : Nat) (sub : Pointee) :
    Except Trouble (Nat × Pointee) := do
  let (ptr, item) ← decodeValueTracked ctx decodeMessage ptr packedEnd field field.wireType
  let sub ← sub.addNext item
  .ok (ptr, sub)

/-- Lines 219 to 237: a new array is stored and not given back. -/
def decodePackedBlockTracked (field : FieldDef) (ptr bufEnd : Nat) (filling : Filling) :
    Except Trouble (Nat × Filling) :=
  match decodeVarint ctx.memory ptr bufEnd with
  | none => .error (.fault .silent)
  | some (len, ptr) =>
    if bufEnd < ptrAdd ptr len.toNat then .error (.fault (.exception .packedTooLong))
    else if filling.asObject then .error (.fault .confusion)
    else do
      let packedEnd := ptrAdd ptr len.toNat
      let sub := (filling.slots.lookup (.str field.nameInPhp)).getD (.live (.array []))
      let (ptr, sub) ← whileBelow (.fault .fuel) packedEnd
        (decodePackedItemTracked ctx decodeMessage field packedEnd) ctx.fuel ptr sub
      .ok (ptr, filling.put (.str field.nameInPhp) sub)

/-- One turn of the loop of `decode_message_internal`. -/
def decodeFieldTracked (schema : CompiledSchema) (bufEnd ptr : Nat) (filling : Filling) :
    Except Trouble (Nat × Filling) :=
  match decodeVarint ctx.memory ptr bufEnd with
  | none => .error (.fault (.exception (.malformedKey schema.schemaName)))
  | some (key, ptr) =>
    if keyTag key = 0 then .ok (ptr, filling)
    else
      match schema.fieldsByTag.lookup (keyTag key) with
      | none =>
        match skipField ctx ptr bufEnd (keyWireType key) with
        | none => .error (.fault (.exception (.skipFailed (keyTag key) schema.schemaName)))
        | some ptr => .ok (ptr, filling)
      | some field =>
        if field.flags.packed ∧ keyWireType key = wiretypeLengthDelim then
          decodePackedBlockTracked ctx decodeMessage field ptr bufEnd filling
        else do
          let (ptr, value) ← decodeValueTracked ctx decodeMessage ptr bufEnd field
            (keyWireType key)
          let filling ← storeTracked field value filling
          .ok (ptr, filling)

end

/-- `decode_message_internal`. -/
def decodeMessageTracked (ctx : DecodeContext) :
    (depth : Nat) → Nat → Nat → CompiledSchema → Filling → Except Trouble (Nat × Filling)
  | 0, _, _, _, _ => .error (.fault .depth)
  | depth + 1, ptr, bufEnd, schema, filling =>
    whileBelow (.fault .fuel) bufEnd
      (decodeFieldTracked ctx (decodeMessageTracked ctx depth) schema bufEnd) ctx.fuel ptr filling

/-- One field of `populate_default_values_and_check_required`: a default that is stored gets a
    count of its own, and a name that is bound is not looked into. -/
def populateFieldTracked (schemaName : Bytes) (filling : Filling) (field : FieldDef) :
    Except Trouble Filling :=
  if (filling.slots.lookup (.str field.nameInPhp)).isSome then .ok filling
  else if field.flags.required then
    .error (.fault (.exception (.requiredNotFound field.nameInPhp field.tag schemaName)))
  else if field.defaultValueZval.isUndef then .ok filling
  else .ok (filling.put (.str field.nameInPhp) (.live field.defaultValueZval))

/-- `quicpro_iibin_decode`. The result dangles if something in it does. What a failing call
    destroys is not followed. -/
def quicproIibinDecodeTracked (wire : WireContext) (fuel : Nat) (schemaName : Bytes)
    (buffer : Buffer) : Except Trouble (Pointee × Option IibinError) :=
  match getCompiledIibinSchemaInternal wire.registry schemaName with
  | none => .error (.fault (.exception (.decodeSchemaNotDefined (cstr schemaName))))
  | some schema => do
      let ctx : DecodeContext := ⟨wire, buffer.memory, fuel⟩
      let (ptr, filled) ← decodeMessageTracked ctx wire.registry.schemas.length buffer.base
        buffer.stop schema ⟨wire.decodeAsObject, []⟩
      let warning := if ptr = buffer.stop then none
        else some (.bytesRemain schema.schemaName (buffer.stop - ptr))
      let result ← schema.orderedFields.foldlM (populateFieldTracked schema.schemaName) filled
      .ok (result.seal, warning)

/-! ### What is still there -/

/-- The slot is the value, unless it dangles. -/
def Pointee.Shows : Pointee → Zval → Prop
  | .live value, shown => value = shown
  | .dangling, _ => True

def EntryShows (slot : Key × Pointee) (entry : Key × Zval) : Prop :=
  slot.1 = entry.1 ∧ slot.2.Shows entry.2

/-- The same container, and in it the same entries as far as they are still there. -/
def Filling.Shows (filling : Filling) (shown : Zval) : Prop :=
  ∃ entries, shown = container filling.asObject entries ∧
    List.Forall₂ EntryShows filling.slots entries

/-- The failures of the decoder on values stay; the use of freed memory is a new one. -/
abbrev FollowsValues (rel : α → β → Prop) : Except Trouble α → Except Fault β → Prop :=
  Follows Trouble.fault rel

variable {slots : List (Key × Pointee)} {entries : HashTable} {wireType : BitVec 32}
  {fuel q ptr bufEnd : Nat} {buffer : Buffer} {warning : Option IibinError}
  {filling filled : Filling} {field : FieldDef} {ctx : DecodeContext} {tracked : TrackedDecoder}
  {key : Key} {schema : CompiledSchema}

theorem track_ok {result : Except Fault α} {a : α} : track result = .ok a ↔ result = .ok a := by
  rcases result with fault | b <;> simp [track]

section

variable {rel : α → β → Prop}

theorem follows_ok {a : α} {b : β} (hrel : rel a b) : FollowsValues rel (.ok a) (.ok b) :=
  ⟨b, rfl, hrel⟩

theorem follows_fault (fault : Fault) :
    FollowsValues rel (.error (.fault fault)) (.error fault) := by
  rintro _ ⟨⟩
  rfl

theorem follows_freed (result : Except Fault β) :
    FollowsValues rel (.error .useAfterFree) result := by
  intro fault hfault
  cases hfault

theorem follows_fuel (fault : Fault) (hfault : Trouble.fault fault = .fault .fuel) :
    fault = .fuel := by
  cases hfault
  rfl

end

section

theorem lookup_shows (hshows : List.Forall₂ EntryShows slots entries) (key : Key) :
    Option.Rel Pointee.Shows (slots.lookup key) (entries.lookup key) := by
  induction hshows with
  | nil => exact .none
  | @cons slot entry slots entries hhead _ ih =>
    obtain ⟨slotKey, slot⟩ := slot
    obtain ⟨entryKey, value⟩ := entry
    obtain ⟨rfl, hvalue⟩ := hhead
    by_cases heq : key = slotKey
    · subst heq
      simpa only [List.lookup_cons_self] using Option.Rel.some hvalue
    · rw [List.lookup_cons, List.lookup_cons, beq_false_of_ne heq]
      exact ih

theorem isSome_lookup_shows (hshows : List.Forall₂ EntryShows slots entries) (key : Key) :
    (slots.lookup key).isSome = (entries.lookup key).isSome := by
  have hfound := lookup_shows hshows key
  revert hfound
  generalize slots.lookup key = slot
  generalize entries.lookup key = value
  rintro (_ | _) <;> rfl

theorem assign_shows (hshows : List.Forall₂ EntryShows slots entries) (key : Key) {slot : Pointee}
    {value : Zval} (hvalue : slot.Shows value) :
    List.Forall₂ EntryShows (assign key slot slots)
      (assign key value entries) := by
  induction hshows with
  | nil => exact .cons ⟨rfl, hvalue⟩ .nil
  | @cons head entry slots entries hhead htail ih =>
    obtain ⟨headKey, head⟩ := head
    obtain ⟨entryKey, old⟩ := entry
    obtain ⟨rfl, hold⟩ := hhead
    unfold assign
    by_cases heq : headKey = key
    · rw [if_pos heq, if_pos heq]
      exact .cons ⟨rfl, hvalue⟩ htail
    · rw [if_neg heq, if_neg heq]
      exact .cons ⟨rfl, hold⟩ ih

theorem sub_shows (hshows : List.Forall₂ EntryShows slots entries) (name : Bytes) :
    ((slots.lookup (.str name)).getD (.live (.array []))).Shows (subArray entries name) := by
  have hfound := lookup_shows hshows (.str name)
  unfold subArray
  generalize slots.lookup (.str name) = slot at hfound ⊢
  generalize entries.lookup (.str name) = value at hfound ⊢
  cases hfound with
  | none => exact rfl
  | some hvalue => exact hvalue

end

variable {slot : Pointee} {value : Zval}

theorem Pointee.afterDtor_shows (hshows : slot.Shows value) (asObject : Bool) :
    (slot.afterDtor asObject).Shows value := by
  cases slot with
  | dangling => trivial
  | live stored =>
    simp only [Pointee.afterDtor]
    split
    · trivial
    · exact hshows

theorem Pointee.addNext_follows {sub item : Pointee} {array : Zval} (hsub : sub.Shows array)
    (hitem : item.Shows value) :
    FollowsValues Pointee.Shows (sub.addNext item) (addNextIndexZval array value) := by
  cases sub with
  | dangling => exact follows_freed _
  | live stored =>
    cases (show stored = array from hsub)
    cases array with
    | array table =>
      cases item with
      | dangling => exact follows_ok trivial
      | live pushed =>
        cases (show pushed = value from hitem)
        exact follows_ok rfl
    | _ => exact follows_fault _

theorem sealed_shows {sealed : HashTable} (hshows : List.Forall₂ EntryShows slots entries)
    (hsealed : slots.mapM Pointee.entry? = some sealed) : sealed = entries := by
  induction hshows generalizing sealed with
  | nil =>
    cases hsealed
    rfl
  | @cons slot entry slots entries hhead _ ih =>
    obtain ⟨slotKey, slot⟩ := slot
    obtain ⟨entryKey, value⟩ := entry
    obtain ⟨rfl, hvalue⟩ := hhead
    cases slot with
    | dangling => cases hsealed
    | live stored =>
      cases (show stored = value from hvalue)
      simp only [List.mapM_cons, Option.bind_eq_bind, Option.bind_eq_some_iff] at hsealed
      obtain ⟨_, hfirst, rest, hrest, hlast⟩ := hsealed
      cases hfirst
      cases hlast
      rw [ih hrest]

theorem Filling.seal_shows {shown : Zval} (hshows : filling.Shows shown) :
    filling.seal.Shows shown := by
  obtain ⟨entries, rfl, hentries⟩ := hshows
  unfold Filling.seal
  split
  · rename_i sealed hsealed
    rw [sealed_shows hentries hsealed]
    exact rfl
  · trivial

theorem storeTracked_follows {returnZval : Zval} (hslot : slot.Shows value)
    (hfilling : filling.Shows returnZval) :
    FollowsValues Filling.Shows (storeTracked field slot filling)
      (storeValue field value returnZval) := by
  obtain ⟨asObject, slots⟩ := filling
  obtain ⟨entries, rfl, hentries⟩ := hfilling
  have hsub := sub_shows hentries field.nameInPhp
  cases hrepeated : field.flags.repeated with
  | true =>
    have hstore : storeValue field value (container asObject entries) =
        (addNextIndexZval (subArray entries field.nameInPhp) value >>= fun longer =>
          .ok (container asObject
            (assign (.str field.nameInPhp) longer entries))) := by
      cases asObject <;>
        simp only [container, storeValue, hrepeated, Bool.false_eq_true, if_true, if_false]
    rw [hstore]
    simp only [storeTracked, hrepeated, if_true]
    cases hfound : slots.lookup (.str field.nameInPhp) with
    | none =>
      rw [hfound] at hsub
      exact (Pointee.addNext_follows hsub hslot).bind fun newArray longer hshows => follows_ok
        ⟨_, rfl, assign_shows hentries _ (Pointee.afterDtor_shows hshows asObject)⟩
    | some sub =>
      rw [hfound] at hsub
      exact (Pointee.addNext_follows hsub hslot).bind fun pushed longer hshows => follows_ok
        ⟨_, rfl, assign_shows hentries _ hshows⟩
  | false =>
    have hstore : storeValue field value (container asObject entries) = .ok (container asObject
        (assign (valueKey asObject field.nameInPhp) value entries)) := by
      cases asObject <;>
        simp only [container, storeValue, hrepeated, Bool.false_eq_true, if_true, if_false,
          valueKey]
    rw [hstore]
    simp only [storeTracked, hrepeated, Bool.false_eq_true, if_false]
    split
    · exact follows_freed _
    · exact follows_ok
        ⟨_, rfl, assign_shows hentries _ (Pointee.afterDtor_shows hslot asObject)⟩

/-- Only a message is decoded by a call of the decoder. -/
theorem decodeValueToZval_scalar (ctx : DecodeContext) (nested nested' : MessageDecoder)
    (ptr bufEnd : Nat) (hscalar : ¬ (field.type = .message ∧
      ¬ (wireType ≠ field.wireType ∧ field.flags.packed = false))) :
    decodeValueToZval ctx nested ptr bufEnd field wireType =
      decodeValueToZval ctx nested' ptr bufEnd field wireType := by
  unfold decodeValueToZval
  by_cases hmismatch : wireType ≠ field.wireType ∧ field.flags.packed = false
  · rw [if_pos hmismatch, if_pos hmismatch]
  · rw [if_neg hmismatch, if_neg hmismatch]
    cases htype : field.type
    case message => exact absurd ⟨htype, hmismatch⟩ hscalar
    all_goals rfl

section

variable {nested : MessageDecoder}
  (hnested : ∀ ptr bufEnd schema filling returnZval, filling.Shows returnZval →
    FollowsValues (Along Filling.Shows) (tracked ptr bufEnd schema filling)
      (nested ptr bufEnd schema returnZval))

include hnested

theorem decodeValueTracked_follows (ptr bufEnd : Nat) (field : FieldDef) (wireType : BitVec 32) :
    FollowsValues (Along Pointee.Shows) (decodeValueTracked ctx tracked ptr bufEnd field wireType)
      (decodeValueToZval ctx nested ptr bufEnd field wireType) := by
  unfold decodeValueTracked
  split
  · rename_i hmessage
    simp only [decodeValueToZval, if_neg hmessage.2, hmessage.1, decodeMessageValue,
      decodeMessageValueTracked]
    rcases decodeVarint ctx.memory ptr bufEnd with _ | ⟨len, start⟩
    · exact follows_fault _
    · dsimp only
      by_cases hpast : lengthLimit ctx bufEnd < ptrAdd start len.toNat
      · rw [if_pos hpast, if_pos hpast]
        exact follows_fault _
      · rw [if_neg hpast, if_neg hpast]
        rcases getCompiledIibinSchemaInternal ctx.registry
          (field.messageTypeNameIfNested.getD []) with _ | schema
        · exact follows_fault _
        · exact (hnested _ _ schema ⟨ctx.decodeAsObject, []⟩ ctx.emptyResult
            ⟨[], rfl, .nil⟩).bind fun _ _ hshows => follows_ok ⟨rfl, Filling.seal_shows hshows.2⟩
  · rename_i hscalar
    rw [decodeValueToZval_scalar ctx nested _ ptr bufEnd hscalar]
    rcases decodeValueToZval ctx (fun _ _ _ _ => .error .depth) ptr bufEnd field wireType with
      fault | ⟨next, value⟩
    · exact follows_fault fault
    · exact follows_ok ⟨rfl, rfl⟩

theorem decodePackedItemTracked_follows (field : FieldDef) (packedEnd ptr : Nat) (sub : Pointee)
    (array : Zval) (hsub : sub.Shows array) :
    FollowsValues (Along Pointee.Shows)
      (decodePackedItemTracked ctx tracked field packedEnd ptr sub)
      (decodePackedItem ctx nested field packedEnd ptr array) :=
  (decodeValueTracked_follows hnested ptr packedEnd field field.wireType).bind
    fun _ _ hitem => (Pointee.addNext_follows hsub hitem.2).bind
      fun _ _ hshows => follows_ok ⟨hitem.1, hshows⟩

theorem decodePackedBlockTracked_follows (field : FieldDef) (ptr bufEnd : Nat) {returnZval : Zval}
    (hfilling : filling.Shows returnZval) :
    FollowsValues (Along Filling.Shows)
      (decodePackedBlockTracked ctx tracked field ptr bufEnd filling)
      (decodePackedBlock ctx nested field ptr bufEnd returnZval) := by
  obtain ⟨asObject, slots⟩ := filling
  obtain ⟨entries, rfl, hentries⟩ := hfilling
  unfold decodePackedBlockTracked decodePackedBlock
  rcases decodeVarint ctx.memory ptr bufEnd with _ | ⟨len, start⟩
  · exact follows_fault _
  · dsimp only
    by_cases hpast : bufEnd < ptrAdd start len.toNat
    · rw [if_pos hpast, if_pos hpast]
      exact follows_fault _
    · rw [if_neg hpast, if_neg hpast]
      cases asObject with
      | true => exact follows_fault _
      | false =>
        refine (whileBelow_follows follows_fuel
          (fun p sub array => decodePackedItemTracked_follows hnested field _ p sub array)
          ctx.fuel start (sub_shows hentries field.nameInPhp)).bind ?_
        exact fun _ _ hshows =>
          follows_ok ⟨hshows.1, _, rfl, assign_shows hentries _ hshows.2⟩

theorem decodeFieldTracked_follows (schema : CompiledSchema) (bufEnd ptr : Nat)
    (filling : Filling) (returnZval : Zval) (hfilling : filling.Shows returnZval) :
    FollowsValues (Along Filling.Shows) (decodeFieldTracked ctx tracked schema bufEnd ptr filling)
      (decodeField ctx nested schema bufEnd ptr returnZval) := by
  unfold decodeFieldTracked decodeField
  rcases decodeVarint ctx.memory ptr bufEnd with _ | ⟨key, start⟩
  · exact follows_fault _
  · dsimp only
    by_cases hzero : keyTag key = 0
    · rw [if_pos hzero, if_pos hzero]
      exact follows_ok ⟨rfl, hfilling⟩
    · rw [if_neg hzero, if_neg hzero]
      rcases schema.fieldsByTag.lookup (keyTag key) with _ | field
      · dsimp only
        rcases skipField ctx start bufEnd (keyWireType key) with _ | next
        · exact follows_fault _
        · exact follows_ok ⟨rfl, hfilling⟩
      · dsimp only
        by_cases hpacked : field.flags.packed = true ∧ keyWireType key = wiretypeLengthDelim
        · rw [if_pos hpacked, if_pos hpacked]
          exact decodePackedBlockTracked_follows hnested field start bufEnd hfilling
        · rw [if_neg hpacked, if_neg hpacked]
          exact (decodeValueTracked_follows hnested start bufEnd field _).bind
            fun _ _ hvalue => (storeTracked_follows hvalue.2 hfilling).bind
              fun _ _ hshows => follows_ok ⟨hvalue.1, hshows⟩

end

/-- **Values and lifetimes.** The run that watches lifetimes follows the run on values, and
    what is still there is what that run has stored. -/
theorem decodeMessageTracked_follows (ctx : DecodeContext) (depth ptr bufEnd : Nat)
    (schema : CompiledSchema) (filling : Filling) (returnZval : Zval)
    (hfilling : filling.Shows returnZval) :
    FollowsValues (Along Filling.Shows)
      (decodeMessageTracked ctx depth ptr bufEnd schema filling)
      (decodeMessageInternal ctx depth ptr bufEnd schema returnZval) := by
  induction depth generalizing ptr bufEnd schema filling returnZval with
  | zero => exact follows_fault _
  | succ depth ih =>
    exact whileBelow_follows follows_fuel
      (fun p filling returnZval => decodeFieldTracked_follows ih schema bufEnd p filling
        returnZval) ctx.fuel ptr hfilling

theorem populateFieldTracked_follows (schemaName : Bytes) (field : FieldDef) (filling : Filling)
    (decoded : Zval) (hfilling : filling.Shows decoded) :
    FollowsValues Filling.Shows (populateFieldTracked schemaName filling field)
      (populateField schemaName decoded field) := by
  obtain ⟨asObject, slots⟩ := filling
  obtain ⟨entries, rfl, hentries⟩ := hfilling
  have hpresent : fieldIsPresent field (container asObject entries) =
      (slots.lookup (.str field.nameInPhp)).isSome := by
    rw [isSome_lookup_shows hentries]
    cases asObject <;> rfl
  have hput : putMember field.nameInPhp field.defaultValueZval (container asObject entries) =
      container asObject (assign (.str field.nameInPhp) field.defaultValueZval
        entries) := by
    cases asObject <;> rfl
  unfold populateFieldTracked populateField
  rw [hpresent, hput]
  by_cases hfound : (slots.lookup (.str field.nameInPhp)).isSome = true
  · rw [if_pos hfound, if_pos hfound]
    exact follows_ok ⟨_, rfl, hentries⟩
  · rw [if_neg hfound, if_neg hfound]
    by_cases hrequired : field.flags.required = true
    · rw [if_pos hrequired, if_pos hrequired]
      exact follows_fault _
    · rw [if_neg hrequired, if_neg hrequired]
      by_cases hundef : field.defaultValueZval.isUndef = true
      · rw [if_pos hundef, if_pos hundef]
        exact follows_ok ⟨_, rfl, hentries⟩
      · rw [if_neg hundef, if_neg hundef]
        exact follows_ok ⟨_, rfl, assign_shows hentries _ rfl⟩

/-- The same warning, and the value as far as it is still there. -/
def ResultShows (result : Pointee × Option IibinError) (shown : Zval × Option IibinError) : Prop :=
  result.1.Shows shown.1 ∧ result.2 = shown.2

/-- **The decoder and its view on values.** `quicpro_iibin_decode` fails as the decoder on
    values does, or returns its result as far as it is still there, or uses memory that has
    been given back. -/
theorem quicproIibinDecodeTracked_follows (wire : WireContext) (fuel : Nat) (schemaName : Bytes)
    (buffer : Buffer) :
    FollowsValues ResultShows (quicproIibinDecodeTracked wire fuel schemaName buffer)
      (quicproIibinDecode wire fuel schemaName buffer) := by
  unfold quicproIibinDecodeTracked quicproIibinDecode
  rcases getCompiledIibinSchemaInternal wire.registry schemaName with _ | schema
  · exact follows_fault _
  · refine (decodeMessageTracked_follows _ _ _ _ schema ⟨wire.decodeAsObject, []⟩ wire.emptyResult
      ⟨[], rfl, .nil⟩).bind ?_
    rintro ⟨ptr, filled⟩ ⟨_, decoded⟩ ⟨rfl, hshows⟩
    exact (Follows.foldlM (populateFieldTracked_follows schema.schemaName) schema.orderedFields
      hshows).bind fun _ _ hresult => follows_ok ⟨Filling.seal_shows hresult, rfl⟩

variable {wire : WireContext} {schemaName : Bytes}

/-- What is returned and still there is what the decoder on values returns. -/
theorem quicproIibinDecode_of_live {result : Zval}
    (hlive : quicproIibinDecodeTracked wire fuel schemaName buffer = .ok (.live result, warning)) :
    quicproIibinDecode wire fuel schemaName buffer = .ok (result, warning) := by
  have hfollows := quicproIibinDecodeTracked_follows wire fuel schemaName buffer
  rw [hlive] at hfollows
  obtain ⟨⟨shown, _⟩, hdecode, rfl, rfl⟩ := hfollows
  exact hdecode

/-! ### Where nothing is given back -/

/-- Everything in the container is still there. -/
def Filling.Intact (filling : Filling) : Prop := ∀ slot ∈ filling.slots, slot.2 ≠ .dangling

theorem Filling.Intact.empty (asObject : Bool) : Filling.Intact ⟨asObject, []⟩ := by
  intro slot hslot
  cases hslot

theorem Filling.Intact.lookup (hintact : filling.Intact)
    (hfound : filling.slots.lookup key = some slot) : slot ≠ .dangling :=
  hintact _ (mem_of_lookup_eq_some hfound)

theorem Filling.Intact.put (hintact : filling.Intact) (key : Key) (hslot : slot ≠ .dangling) :
    (filling.put key slot).Intact := by
  intro entry hentry
  rcases mem_assign hentry with rfl | hold
  · exact hslot
  · exact hintact entry hold

theorem Filling.Intact.seal (hintact : filling.Intact) :
    ∃ value, filling.seal = .live value := by
  obtain ⟨asObject, slots⟩ := filling
  have hmap : ∃ entries, slots.mapM Pointee.entry? = some entries := by
    induction slots with
    | nil => exact ⟨[], rfl⟩
    | cons slot rest ih =>
      obtain ⟨entries, hentries⟩ := ih fun other hother =>
        hintact other (List.mem_cons_of_mem _ hother)
      obtain ⟨key, value | _⟩ := slot
      · exact ⟨(key, value) :: entries, by rw [List.mapM_cons, hentries]; rfl⟩
      · exact absurd rfl (hintact _ List.mem_cons_self)
  obtain ⟨entries, hentries⟩ := hmap
  refine ⟨container asObject entries, ?_⟩
  simp only [Filling.seal, hentries]

/-- Freed memory is not used, and the value satisfies the postcondition. -/
abbrev Calm (post : α → Prop) : Except Trouble α → Prop := Ends (· ≠ .useAfterFree) post

theorem calm_fault {post : α → Prop} (fault : Fault) :
    Calm post (.error (.fault fault) : Except Trouble α) := by
  intro hfreed
  cases hfreed

/-- A single element of a list that is not there yet: the turn that reads this key makes the
    list, and gives it back. -/
def startsList (schema : CompiledSchema) (key : BitVec 64) (entries : List (Key × α)) : Bool :=
  match schema.fieldsByTag.lookup (keyTag key) with
  | none => false
  | some field =>
    keyTag key ≠ 0 && field.flags.repeated &&
      !(field.flags.packed && keyWireType key = wiretypeLengthDelim) &&
      (entries.lookup (.str field.nameInPhp)).isNone

theorem Pointee.addNext_calm {sub : Pointee} (hsub : sub ≠ .dangling) (value : Zval) :
    Calm (· ≠ .dangling) (sub.addNext (.live value)) := by
  cases sub with
  | dangling => exact absurd rfl hsub
  | live stored =>
    cases stored with
    | array table =>
      intro hdangling
      cases hdangling
    | _ => exact calm_fault _

theorem Pointee.afterDtor_ne {asObject : Bool}
    (hkept : asObject = true ∨ isRefcounted value = false) :
    (Pointee.live value).afterDtor asObject ≠ .dangling := by
  have hnot : ¬ (asObject = false ∧ isRefcounted value = true) := by
    rintro ⟨hmode, hcounted⟩
    rcases hkept with hkept | hkept
    · rw [hmode] at hkept
      cases hkept
    · rw [hcounted] at hkept
      cases hkept
  rw [Pointee.afterDtor, if_neg hnot]
  intro hdangling
  cases hdangling

theorem storeTracked_calm (hintact : filling.Intact)
    (hkept : filling.asObject = true ∨ isRefcounted value = false ∧
      (field.flags.repeated = true →
        (filling.slots.lookup (.str field.nameInPhp)).isSome = true)) :
    Calm (fun filled => filled.Intact ∧ filled.asObject = filling.asObject)
      (storeTracked field (.live value) filling) := by
  unfold storeTracked
  split
  · rename_i hrepeated
    split
    · rename_i hnone
      have hobject : filling.asObject = true := by
        rcases hkept with hobject | ⟨-, hfound⟩
        · exact hobject
        · rw [hnone] at hfound
          cases hfound hrepeated
      exact ⟨hintact.put _ (Pointee.afterDtor_ne (.inl hobject)), rfl⟩
    · rename_i sub hsome
      refine (Pointee.addNext_calm (hintact.lookup hsome) value).bind fun longer hlonger => ?_
      exact ⟨hintact.put _ hlonger, rfl⟩
  · dsimp only
    split
    · rename_i hdangling
      exact absurd rfl (hintact.lookup hdangling)
    · exact ⟨hintact.put _ (Pointee.afterDtor_ne (hkept.imp id And.left)), rfl⟩

/-- Numbers and booleans are stored by copy. -/
theorem decodeValueToZval_unshared {nested : MessageDecoder}
    (hscalar : Wire.layout field.type ≠ some .delimited)
    (hvalue : decodeValueToZval ctx nested ptr bufEnd field wireType = .ok (q, value)) :
    isRefcounted value = false := by
  have hread : ∀ {β : Type} {read : Option (β × Nat)} {convert : β → Zval},
      readOrFail read convert = .ok (q, value) → (∀ b, isRefcounted (convert b) = false) →
      isRefcounted value = false := by
    intro β read convert hok hconvert
    rcases read with _ | ⟨b, next⟩
    · cases hok
    · cases hok
      exact hconvert b
  unfold decodeValueToZval at hvalue
  split at hvalue
  · cases hvalue
  · cases htype : field.type <;> rw [htype] at hvalue hscalar
    case string | bytes | message => exact absurd rfl hscalar
    case unknown => cases hvalue
    all_goals exact hread hvalue fun _ => rfl

section

variable (hnested : ctx.decodeAsObject = true → ∀ ptr bufEnd schema,
    Calm (fun last => last.2.Intact) (tracked ptr bufEnd schema ⟨true, []⟩))

include hnested

theorem decodeValueTracked_calm (ptr bufEnd : Nat) (wireType : BitVec 32)
    (hquiet : ctx.decodeAsObject = true ∨ Wire.layout field.type ≠ some .delimited) :
    Calm (fun read => ∃ value, read.2 = .live value ∧
        (Wire.layout field.type ≠ some .delimited → isRefcounted value = false))
      (decodeValueTracked ctx tracked ptr bufEnd field wireType) := by
  unfold decodeValueTracked
  split
  · rename_i hmessage
    have hobject : ctx.decodeAsObject = true :=
      hquiet.resolve_right fun hscalar => hscalar (by rw [hmessage.1]; rfl)
    unfold decodeMessageValueTracked
    split
    · exact calm_fault _
    · split
      · exact calm_fault _
      · dsimp only
        split
        · exact calm_fault _
        · rw [hobject]
          refine (hnested hobject _ _ _).bind fun last hintact => ?_
          obtain ⟨value, hvalue⟩ := hintact.seal
          exact ⟨value, hvalue, fun hscalar => absurd (by rw [hmessage.1]; rfl) hscalar⟩
  · rcases hvalue : decodeValueToZval ctx (fun _ _ _ _ => .error .depth) ptr bufEnd field
      wireType with fault | ⟨next, value⟩
    · exact calm_fault fault
    · exact ⟨value, rfl, fun hscalar => decodeValueToZval_unshared hscalar hvalue⟩

/-- A turn leaves everything in its place if it fills an object, or if its key is not one of
    a field that is stored as a pointer and does not make a list. -/
theorem decodeFieldTracked_calm (schema : CompiledSchema) (bufEnd ptr : Nat)
    (hintact : filling.Intact) (hquiet : ctx.decodeAsObject = true ∧ filling.asObject = true ∨
      ∀ key next field, decodeVarint ctx.memory ptr bufEnd = some (key, next) → keyTag key ≠ 0 →
        schema.fieldsByTag.lookup (keyTag key) = some field →
        Wire.layout field.type ≠ some .delimited ∧
          startsList schema key filling.slots = false) :
    Calm (fun last => last.2.Intact ∧ last.2.asObject = filling.asObject)
      (decodeFieldTracked ctx tracked schema bufEnd ptr filling) := by
  unfold decodeFieldTracked
  cases hread : decodeVarint ctx.memory ptr bufEnd with
  | none => exact calm_fault _
  | some read =>
    obtain ⟨key, start⟩ := read
    dsimp only
    split
    · exact ⟨hintact, rfl⟩
    · rename_i hzero
      cases hknown : schema.fieldsByTag.lookup (keyTag key) with
      | none =>
        dsimp only
        split
        · exact calm_fault _
        · exact ⟨hintact, rfl⟩
      | some field =>
        have hhere := hquiet.imp id fun hkeys => hkeys key start field hread hzero hknown
        have hvalue := hhere.imp And.left And.left
        dsimp only
        split
        · unfold decodePackedBlockTracked
          split
          · exact calm_fault _
          · split
            · exact calm_fault _
            · split
              · exact calm_fault _
              · have hsub : (filling.slots.lookup (.str field.nameInPhp)).getD
                    (.live (.array [])) ≠ .dangling := by
                  cases hfound : filling.slots.lookup (.str field.nameInPhp) with
                  | none =>
                    intro hdangling
                    cases hdangling
                  | some sub => exact hintact.lookup hfound
                refine (whileBelow_invariant (fun _ sub => sub ≠ .dangling)
                  (by intro hfreed; cases hfreed) (fun p sub hsub _ => ?_) _ _ _ hsub).bind
                  fun last hlast => ⟨hintact.put _ hlast, rfl⟩
                refine (decodeValueTracked_calm hnested p _ field.wireType hvalue).bind ?_
                rintro ⟨next, _⟩ ⟨item, rfl, -⟩
                exact (Pointee.addNext_calm hsub item).bind fun _ hlonger => hlonger
        · rename_i hsingle
          refine (decodeValueTracked_calm hnested start bufEnd (keyWireType key) hvalue).bind ?_
          rintro ⟨next, _⟩ ⟨value, rfl, hunshared⟩
          refine (storeTracked_calm hintact (hhere.imp And.right fun hboth => ?_)).bind
            fun _ hstored => hstored
          refine ⟨hunshared hboth.1, fun hrepeated => ?_⟩
          have hstarts := hboth.2
          simp only [startsList, hknown, hrepeated, ne_eq, hzero, not_false_eq_true,
            decide_true, Bool.true_and, Bool.and_eq_false_iff, Bool.not_eq_false',
            Bool.and_eq_true, decide_eq_true_eq] at hstarts
          rcases hstarts with hpacked | hsome
          · exact absurd hpacked hsingle
          · exact Option.isNone_eq_false_iff.mp hsome

end

/-- Nothing can be given back: an object is filled, or no field that can be read is a list or
    stored as a pointer. -/
def CompiledSchema.Quiet (schema : CompiledSchema) (asObject : Bool) : Prop :=
  asObject = true ∨ ∀ tag field, schema.fieldsByTag.lookup tag = some field → tag ≠ 0 →
    field.flags.repeated = false ∧ Wire.layout field.type ≠ some .delimited

theorem decodeMessageTracked_calm (ctx : DecodeContext) (depth ptr bufEnd : Nat)
    (hquiet : schema.Quiet ctx.decodeAsObject) (hintact : filling.Intact)
    (hmode : filling.asObject = ctx.decodeAsObject) :
    Calm (fun last => last.2.Intact)
      (decodeMessageTracked ctx depth ptr bufEnd schema filling) := by
  induction depth generalizing ptr bufEnd schema filling with
  | zero => exact calm_fault _
  | succ depth ih =>
    have hnested : ctx.decodeAsObject = true → ∀ ptr bufEnd schema,
        Calm (fun last => last.2.Intact)
          (decodeMessageTracked ctx depth ptr bufEnd schema ⟨true, []⟩) :=
      fun hobject ptr bufEnd schema => ih ptr bufEnd (.inl hobject) (.empty true) hobject.symm
    refine (whileBelow_invariant
      (fun _ filling => filling.Intact ∧ filling.asObject = ctx.decodeAsObject)
      (by intro hfreed; cases hfreed) (fun p filling hinv _ => ?_) _ ptr _
      ⟨hintact, hmode⟩).mono fun _ hlast => hlast.1
    refine (decodeFieldTracked_calm hnested schema bufEnd p hinv.1 ?_).mono
      fun _ hlast => ⟨hlast.1, hlast.2.trans hinv.2⟩
    refine hquiet.imp (fun hobject => ⟨hobject, hinv.2.trans hobject⟩) ?_
    intro hfields key next field _ hzero hknown
    obtain ⟨hsingular, hscalar⟩ := hfields _ field hknown hzero
    exact ⟨hscalar, by simp [startsList, hknown, hsingular]⟩

theorem populateFieldTracked_calm (schemaName : Bytes) (field : FieldDef)
    (hintact : filling.Intact) :
    Calm Filling.Intact (populateFieldTracked schemaName filling field) := by
  unfold populateFieldTracked
  split
  · exact hintact
  · split
    · exact calm_fault _
    · split
      · exact hintact
      · refine hintact.put _ ?_
        intro hdangling
        cases hdangling

/-- A result all of which is there. -/
def intact (result : Except Fault (Zval × Option IibinError)) :
    Except Trouble (Pointee × Option IibinError) :=
  match result with
  | .ok (value, warning) => .ok (.live value, warning)
  | .error fault => .error (.fault fault)

/-- A call that gives nothing back is the call on values. -/
theorem quicproIibinDecodeTracked_of_calm (hfound : wire.registry.Has schemaName schema)
    (hrun : Calm (fun last => last.2.Intact) (decodeMessageTracked ⟨wire, buffer.memory, fuel⟩
      wire.registry.schemas.length buffer.base buffer.stop schema ⟨wire.decodeAsObject, []⟩)) :
    quicproIibinDecodeTracked wire fuel schemaName buffer =
      intact (quicproIibinDecode wire fuel schemaName buffer) := by
  have hfollows := quicproIibinDecodeTracked_follows wire fuel schemaName buffer
  have hcalm : Calm (fun result => ∃ value, result.1 = .live value)
      (quicproIibinDecodeTracked wire fuel schemaName buffer) := by
    simp only [quicproIibinDecodeTracked, hfound]
    refine hrun.bind fun last hintact => ?_
    exact (Ends.foldlM_mem Filling.Intact
      (fun field _ _ hinv => populateFieldTracked_calm _ field hinv) hintact).bind
      fun result hresult => hresult.seal
  revert hfollows hcalm
  rcases quicproIibinDecodeTracked wire fuel schemaName buffer with
    (fault | _) | ⟨slot, warning⟩
  · intro hfollows _
    rw [hfollows fault rfl]
    rfl
  · intro _ hcalm
    exact absurd rfl hcalm
  · rintro ⟨⟨shown, _⟩, hdecode, hshows, rfl⟩ ⟨value, rfl⟩
    rw [hdecode, show value = shown from hshows]
    rfl

/-- **Where the values are the whole story.** If nothing can be given back,
    `quicpro_iibin_decode` is the decoder on values. -/
theorem quicproIibinDecodeTracked_quiet (hfound : wire.registry.Has schemaName schema)
    (hquiet : schema.Quiet wire.decodeAsObject) (fuel : Nat) (buffer : Buffer) :
    quicproIibinDecodeTracked wire fuel schemaName buffer =
      intact (quicproIibinDecode wire fuel schemaName buffer) :=
  quicproIibinDecodeTracked_of_calm hfound
    (decodeMessageTracked_calm ⟨wire, buffer.memory, fuel⟩ _ _ _ hquiet (.empty _) rfl)

theorem intact_eq_ok {result : Except Fault (Zval × Option IibinError)} :
    intact result = .ok (.live value, warning) ↔ result = .ok (value, warning) := by
  rcases result with fault | ⟨shown, other⟩
  · simp [intact]
  · simp [intact]

/-! ### What dangles -/

/-- Something that can be looked up has been given back. -/
def Filling.Dangles (filling : Filling) : Prop := ∃ key, filling.slots.lookup key = some .dangling

theorem Filling.lookup_put (key other : Key) (slot : Pointee) (filling : Filling) :
    (filling.put key slot).slots.lookup other =
      if other = key then some slot else filling.slots.lookup other :=
  lookup_assign key other slot filling.slots

theorem storeTracked_dangling (hdangling : filling.slots.lookup key = some .dangling)
    (hok : storeTracked field slot filling = .ok filled) :
    filled.slots.lookup key = some .dangling := by
  unfold storeTracked at hok
  split at hok
  · split at hok
    · rename_i hnone
      obtain ⟨newArray, -, hrest⟩ := bind_eq_ok.mp hok
      cases hrest
      rw [Filling.lookup_put, if_neg, hdangling]
      rintro rfl
      rw [hnone] at hdangling
      cases hdangling
    · rename_i sub hsome
      obtain ⟨longer, hpush, hrest⟩ := bind_eq_ok.mp hok
      cases hrest
      rw [Filling.lookup_put, if_neg, hdangling]
      rintro rfl
      cases hsome.symm.trans hdangling
      cases hpush
  · dsimp only at hok
    split at hok
    · cases hok
    · rename_i hsound
      cases hok
      rw [Filling.lookup_put, if_neg, hdangling]
      rintro rfl
      exact hsound hdangling

section

theorem decodePackedBlockTracked_dangling (hdangling : filling.slots.lookup key = some .dangling)
    (hok : decodePackedBlockTracked ctx tracked field ptr bufEnd filling = .ok (q, filled)) :
    filled.slots.lookup key = some .dangling := by
  unfold decodePackedBlockTracked at hok
  split at hok
  · cases hok
  · split at hok
    · cases hok
    · split at hok
      · cases hok
      · obtain ⟨⟨next, sub⟩, hloop, hrest⟩ := bind_eq_ok.mp hok
        cases hrest
        rw [Filling.lookup_put]
        split
        · rename_i hkey
          -- an item cannot be appended to what dangles, so that there was none
          refine congrArg some (whileBelow_keeps (fun _ sub => sub = .dangling) ?_ ?_ hloop)
          · rintro p sub p' longer rfl hturn
            obtain ⟨⟨next, item⟩, -, hrest⟩ := bind_eq_ok.mp hturn
            obtain ⟨pushed, hpush, -⟩ := bind_eq_ok.mp hrest
            cases hpush
          · rw [← hkey, hdangling, Option.getD_some]
        · exact hdangling

theorem decodeFieldTracked_dangling (hdangling : filling.slots.lookup key = some .dangling)
    (hok : decodeFieldTracked ctx tracked schema bufEnd ptr filling = .ok (q, filled)) :
    filled.slots.lookup key = some .dangling := by
  unfold decodeFieldTracked at hok
  split at hok
  · cases hok
  · split at hok
    · cases hok
      exact hdangling
    · split at hok
      · split at hok
        · cases hok
        · cases hok
          exact hdangling
      · split at hok
        · exact decodePackedBlockTracked_dangling hdangling hok
        · obtain ⟨⟨next, slot⟩, -, hrest⟩ := bind_eq_ok.mp hok
          obtain ⟨stored, hstored, hrest⟩ := bind_eq_ok.mp hrest
          cases hrest
          exact storeTracked_dangling hdangling hstored

end

/-- **No repair.** Whatever the bytes are, an entry that dangles still does when the run ends. -/
theorem decodeLoopTracked_dangling (hdangling : filling.slots.lookup key = some .dangling)
    (hok : whileBelow (.fault .fuel) bufEnd (decodeFieldTracked ctx tracked schema bufEnd) fuel ptr
      filling = .ok (q, filled)) :
    filled.slots.lookup key = some .dangling :=
  whileBelow_keeps (fun _ filling => filling.slots.lookup key = some .dangling)
    (fun _ _ _ _ hinv hturn => decodeFieldTracked_dangling hinv hturn) hdangling hok

theorem populateFieldTracked_dangling (hdangling : filling.slots.lookup key = some .dangling)
    (hok : populateFieldTracked schemaName filling field = .ok filled) :
    filled.slots.lookup key = some .dangling := by
  unfold populateFieldTracked at hok
  split at hok
  · cases hok
    exact hdangling
  · rename_i habsent
    split at hok
    · cases hok
    · split at hok
      · cases hok
        exact hdangling
      · cases hok
        rw [Filling.lookup_put, if_neg, hdangling]
        rintro rfl
        exact habsent (by rw [hdangling]; rfl)

theorem Filling.Dangles.seal (hdangles : filling.Dangles) :
    filling.seal = .dangling := by
  obtain ⟨asObject, slots⟩ := filling
  obtain ⟨key, hdangling⟩ := hdangles
  have hmap : slots.mapM Pointee.entry? = none := by
    have hmem := mem_of_lookup_eq_some hdangling
    clear hdangling
    induction slots with
    | nil => cases hmem
    | cons slot rest ih =>
      rw [List.mapM_cons]
      rcases List.mem_cons.mp hmem with rfl | hrest
      · rfl
      · rw [ih hrest]
        cases Pointee.entry? slot <;> rfl
  simp only [Filling.seal, hmap]

/-- What dangles when the bytes are used up dangles in what is returned. -/
theorem quicproIibinDecodeTracked_dangling (hfound : wire.registry.Has schemaName schema)
    (hdangles : ∀ q filled, decodeMessageTracked ⟨wire, buffer.memory, fuel⟩
      wire.registry.schemas.length buffer.base buffer.stop schema ⟨wire.decodeAsObject, []⟩ =
        .ok (q, filled) → filled.Dangles) (result : Zval) (warning : Option IibinError) :
    quicproIibinDecodeTracked wire fuel schemaName buffer ≠ .ok (.live result, warning) := by
  intro hlive
  simp only [quicproIibinDecodeTracked, hfound] at hlive
  obtain ⟨⟨q, filled⟩, hrun, hlive⟩ := bind_eq_ok.mp hlive
  obtain ⟨populated, hpopulated, hlive⟩ := bind_eq_ok.mp hlive
  obtain ⟨key, hdangling⟩ := hdangles q filled hrun
  have hkept : Ends (fun _ => True) (fun filling => filling.slots.lookup key = some .dangling)
      (schema.orderedFields.foldlM (populateFieldTracked schema.schemaName) filled) := by
    refine Ends.foldlM_mem _ (fun field _ filling hinv => ?_) hdangling
    rcases hfield : populateFieldTracked schema.schemaName filling field with _ | stored
    · trivial
    · exact populateFieldTracked_dangling hinv hfield
  rw [Filling.Dangles.seal ⟨key, hkept.ok hpopulated⟩] at hlive
  cases hlive

/-- Strings and messages are stored as pointers. -/
theorem decodeValueTracked_shared (hdelimited : Wire.layout field.type = some .delimited)
    (hok : decodeValueTracked ctx tracked ptr bufEnd field wireType = .ok (q, slot)) :
    slot.afterDtor false = .dangling := by
  unfold decodeValueTracked at hok
  split at hok
  · unfold decodeMessageValueTracked at hok
    split at hok
    · cases hok
    · split at hok
      · cases hok
      · dsimp only at hok
        split at hok
        · cases hok
        · obtain ⟨⟨stop, out⟩, -, hrest⟩ := bind_eq_ok.mp hok
          cases hrest
          unfold Filling.seal
          split
          · cases out.asObject <;> rfl
          · rfl
  · rename_i hscalar
    obtain ⟨⟨next, value⟩, hvalue, hrest⟩ := bind_eq_ok.mp hok
    cases hrest
    have hvalue := track_ok.mp hvalue
    unfold decodeValueToZval at hvalue
    split at hvalue
    · cases hvalue
    · rename_i hmatch
      have hstring : decodeStringValue ctx ptr bufEnd = .ok (q, value) →
          isRefcounted value = true := by
        intro hstring
        unfold decodeStringValue at hstring
        split at hstring
        · cases hstring
        · split at hstring
          · cases hstring
          · cases hstring
            rfl
      have hcounted : isRefcounted value = true := by
        cases htype : field.type <;> rw [htype] at hvalue hdelimited
        case string | bytes => exact hstring hvalue
        case message => exact absurd ⟨htype, hmatch⟩ hscalar
        all_goals cases hdelimited
      simp [Pointee.afterDtor, hcounted]

section

variable {start : Nat} {key : BitVec 64}
  (hread : decodeVarint ctx.memory ptr bufEnd = some (key, start)) (hzero : keyTag key ≠ 0)
  (hknown : schema.fieldsByTag.lookup (keyTag key) = some field)
  (hsingle : ¬ (field.flags.packed = true ∧ keyWireType key = wiretypeLengthDelim))
  (hok : decodeFieldTracked ctx tracked schema bufEnd ptr filling = .ok (q, filled))

include hread hzero hknown hsingle hok

/-- **Given back.** A single element that makes its list, a string or a message leaves an
    entry of the array that dangles. -/
theorem decodeFieldTracked_gives_back (hmode : filling.asObject = false)
    (hgives : field.flags.repeated = true ∧ filling.slots.lookup (.str field.nameInPhp) = none ∨
      field.flags.repeated = false ∧ Wire.layout field.type = some .delimited) :
    filled.slots.lookup (field.entryKey false) = some .dangling := by
  simp only [decodeFieldTracked, hread, if_neg hzero, hknown, if_neg hsingle] at hok
  obtain ⟨⟨next, slot⟩, hslot, hrest⟩ := bind_eq_ok.mp hok
  obtain ⟨stored, hstored, hrest⟩ := bind_eq_ok.mp hrest
  cases hrest
  rcases hgives with ⟨hrepeated, habsent⟩ | ⟨hsingular, hdelimited⟩
  · simp only [storeTracked, hrepeated, if_true, habsent, hmode] at hstored
    obtain ⟨newArray, hnew, hrest⟩ := bind_eq_ok.mp hstored
    cases hrest
    have hfreed : newArray.afterDtor false = .dangling := by
      cases slot <;> cases hnew <;> rfl
    rw [FieldDef.entryKey, if_pos hrepeated, Filling.lookup_put, if_pos rfl, hfreed]
  · simp only [storeTracked, hsingular, Bool.false_eq_true, if_false, hmode,
      decodeValueTracked_shared hdelimited hslot] at hstored
    split at hstored
    · cases hstored
    · cases hstored
      rw [FieldDef.entryKey, hsingular, if_neg Bool.false_ne_true, Filling.lookup_put, if_pos rfl]

/-- **Use after free.** A single element for an entry that dangles does not end well. -/
theorem decodeFieldTracked_uses (hmode : filling.asObject = false)
    (hdangling : filling.slots.lookup (field.entryKey false) = some .dangling) : False := by
  simp only [decodeFieldTracked, hread, if_neg hzero, hknown, if_neg hsingle] at hok
  obtain ⟨⟨next, slot⟩, hslot, hrest⟩ := bind_eq_ok.mp hok
  obtain ⟨stored, hstored, hrest⟩ := bind_eq_ok.mp hrest
  cases hrepeated : field.flags.repeated with
  | true =>
    rw [FieldDef.entryKey, if_pos hrepeated] at hdangling
    simp only [storeTracked, hrepeated, if_true, hdangling] at hstored
    obtain ⟨longer, hpush, -⟩ := bind_eq_ok.mp hstored
    cases hpush
  | false =>
    rw [FieldDef.entryKey, hrepeated, if_neg Bool.false_ne_true] at hdangling
    simp only [storeTracked, hrepeated, Bool.false_eq_true, if_false, hmode, hdangling] at hstored
    cases hstored

end

/-! ### Tables in which everything is still there -/

def Filling.ofEntries (entries : HashTable) : Filling :=
  ⟨false, entries.map fun entry => (entry.1, .live entry.2)⟩

theorem Filling.lookup_ofEntries (entries : HashTable) (key : Key) :
    (Filling.ofEntries entries).slots.lookup key = (entries.lookup key).map .live := by
  induction entries with
  | nil => rfl
  | cons entry rest ih =>
    have hcons : (Filling.ofEntries (entry :: rest)).slots =
        (entry.1, .live entry.2) :: (Filling.ofEntries rest).slots := rfl
    rw [hcons, List.lookup_cons, List.lookup_cons]
    cases key == entry.1 with
    | true => rfl
    | false => exact ih

theorem Filling.intact_ofEntries (entries : HashTable) : (Filling.ofEntries entries).Intact := by
  intro slot hslot
  obtain ⟨entry, -, rfl⟩ := List.mem_map.mp hslot
  intro hdangling
  cases hdangling

theorem Filling.ofEntries_shows (entries : HashTable) :
    (Filling.ofEntries entries).Shows (.array entries) := by
  refine ⟨entries, rfl, ?_⟩
  rw [Filling.ofEntries, List.forall₂_map_left_iff]
  exact List.forall₂_same.mpr fun entry _ => ⟨rfl, rfl⟩

theorem Filling.eq_ofEntries (hintact : filling.Intact) (hshows : filling.Shows (.array entries)) :
    filling = .ofEntries entries := by
  obtain ⟨asObject, slots⟩ := filling
  obtain ⟨shown, hshown, hslots⟩ := hshows
  cases asObject with
  | true => cases hshown
  | false =>
    cases hshown
    replace hslots : List.Forall₂ EntryShows slots entries := hslots
    have hmap : slots = entries.map fun entry => (entry.1, .live entry.2) := by
      induction hslots with
      | nil => rfl
      | @cons slot entry slots entries hhead _ ih =>
        obtain ⟨key, value | _⟩ := slot
        · obtain ⟨rfl, rfl⟩ := hhead
          rw [List.map_cons, ← ih fun other hother =>
            hintact other (List.mem_cons_of_mem _ hother)]
        · exact absurd rfl (hintact _ List.mem_cons_self)
    rw [hmap]
    rfl

end QuicproAsync.Iibin

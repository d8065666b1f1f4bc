import QuicproAsync.IibinRoundTrip

/-!
# Concatenation is merge

Two byte strings that the decoder accepts, one behind the other. The decoder is local: a
string whose lengths stay inside it means the same whatever follows. What it means is a
sequence of deliveries that does not depend on what has been filled in before, so the
second string adds its lists to those of the first and replaces its values.

That is the decoder on values. The code gives a list back that a single element makes, so two
strings with such an element are each accepted and not accepted one behind the other; the
merge is what comes out exactly if no turn of the two runs makes a list.
-/

namespace QuicproAsync.Iibin

open Php Fallible ScanLoop OrderedMap

variable {nested : Wire.MessageReader} {out : Zval} {entries : HashTable} {rest bytes : Bytes}
  {wireType : BitVec 32} {depth ptr bufEnd : Nat} {ctx : WireContext} {schema : CompiledSchema}
  {asObject : Bool} {field : FieldDef} {registry : Registry}

/-! ### The deliveries of a byte string -/

/-- A delivery that the decoder makes for a field of the schema. -/
def Delivery.Of (schema : CompiledSchema) : Delivery → Prop
  | .value field _ => field ∈ schema.orderedFields ∧ field.flags.repeated = false
  | .list field _ => field ∈ schema.orderedFields ∧ field.flags.repeated = true

section

/-- The items of a packed block that is read once are the same at every reading. -/
theorem packedItems_deliver {content : Bytes} {sub : Zval}
    (hread : drainAll .overrun (Wire.packedItem ctx nested field) content sub = .ok out) :
    ∃ items : List Zval, ∀ sub', drainAll .overrun (Wire.packedItem ctx nested field) content sub' =
      Wire.lift (items.foldlM addNextIndexZval sub') := by
  obtain ⟨action, ⟨items, rfl⟩, hall⟩ := drainAll_uniform id
    (fun action => ∃ items : List Zval,
      action = fun sub => Wire.lift (items.foldlM addNextIndexZval sub))
    ⟨[], rfl⟩ (by
      rintro _ _ ⟨first, rfl⟩ ⟨second, rfl⟩
      exact ⟨first ++ second, by simp only [List.foldlM_append, Wire.lift_bind]⟩)
    (Wire.packedItem_shrinks ctx nested field) (by
      intro bytes sub rest pushed hitem
      obtain ⟨⟨after, item⟩, hvalue, hitem⟩ := bind_eq_ok.mp hitem
      obtain ⟨_, -, hitem⟩ := bind_eq_ok.mp hitem
      cases hitem
      refine ⟨_, ⟨[item], rfl⟩, fun sub' => ?_⟩
      simp only [id_eq, Wire.packedItem, hvalue, List.foldlM_cons, List.foldlM_nil, bind_pure]
      rfl) hread
  exact ⟨items, fun sub' => (hall sub').trans (bind_pure _)⟩

/-- The reading of a field leaves `rest` over and makes the same deliveries whatever is
    filled. -/
def Delivers (schema : CompiledSchema) (asObject : Bool) (read : Zval → Wire.Answer (Bytes × Zval))
    (rest : Bytes) : Prop :=
  ∃ made : List Delivery, (∀ delivery ∈ made, delivery.Of schema) ∧ ∀ entries,
    read (container asObject entries) =
      Wire.lift (made.foldlM (Delivery.apply asObject) entries) >>=
        fun final => .ok (rest, container asObject final)

theorem packedBlock_delivers (hformed : schema.WellFormed registry)
    (hfield : field ∈ schema.orderedFields) (hpacked : field.flags.packed = true)
    (hread : Wire.packedBlock ctx nested field bytes (container asObject entries) =
      .ok (rest, out)) :
    Delivers schema asObject (Wire.packedBlock ctx nested field bytes) rest := by
  obtain ⟨⟨content, left⟩, hblock, hread⟩ := bind_eq_ok.mp hread
  obtain ⟨found, harray, hread⟩ := bind_eq_ok.mp hread
  obtain ⟨sub, hsub, hread⟩ := bind_eq_ok.mp hread
  cases hread
  -- only an array gets this far
  cases asObject with
  | true => cases harray
  | false =>
    obtain ⟨items, hitems⟩ := packedItems_deliver hsub
    refine ⟨[.list field items], ?_, fun entries' => ?_⟩
    · intro delivery hdelivery
      rw [List.mem_singleton.mp hdelivery]
      exact ⟨hfield, ((hformed.fields field hfield).packed hpacked).1⟩
    · rw [Wire.packedBlock, hblock]
      simp only [bind, Except.bind, Wire.lift, container, Bool.false_eq_true, if_false,
        returnArray, hitems, List.foldlM_cons, List.foldlM_nil, Delivery.apply]
      rcases items.foldlM addNextIndexZval (subArray entries' field.nameInPhp) with fault | sub'
      · rfl
      · rfl

theorem singleField_delivers (hfield : field ∈ schema.orderedFields)
    (hread : Wire.singleField ctx nested field wireType bytes (container asObject entries) =
      .ok (rest, out)) :
    Delivers schema asObject (Wire.singleField ctx nested field wireType bytes) rest := by
  obtain ⟨⟨left, value⟩, hvalue, hread⟩ := bind_eq_ok.mp hread
  obtain ⟨stored, -, hread⟩ := bind_eq_ok.mp hread
  cases hread
  refine ⟨deliveries field [value], ?_, fun entries' => ?_⟩
  · intro delivery hdelivery
    rcases (mem_deliveries hdelivery).2 with ⟨hrepeated, rfl⟩ | ⟨hsingular, item, -, rfl⟩
    · exact ⟨hfield, hrepeated⟩
    · exact ⟨hfield, hsingular⟩
  · rw [Wire.singleField, hvalue]
    simp only [bind, Except.bind, Wire.lift]
    rw [storeValue_container]
    rcases (deliveries field [value]).foldlM (Delivery.apply asObject) entries' with fault | final
    · rfl
    · rfl

/-- One field that is read once delivers the same at every reading. -/
theorem field_delivers (hformed : schema.WellFormed registry)
    (hread : Wire.field ctx nested schema bytes (container asObject entries) = .ok (rest, out)) :
    Delivers schema asObject (Wire.field ctx nested schema bytes) rest := by
  unfold Delivers
  rcases hkey : Wire.varint bytes with _ | ⟨key, after⟩
  · simp only [Wire.field, hkey] at hread
    cases hread
  simp only [Wire.field, hkey, Wire.fieldBody] at hread ⊢
  by_cases hzero : keyTag key = 0
  · simp only [if_pos hzero] at hread ⊢
    cases hread
    exact ⟨[], by simp, fun entries' => rfl⟩
  simp only [if_neg hzero] at hread ⊢
  rcases hlookup : schema.fieldsByTag.lookup (keyTag key) with _ | field
  · simp only [hlookup] at hread ⊢
    obtain ⟨left, hskip, hread⟩ := bind_eq_ok.mp hread
    cases hread
    refine ⟨[], by simp, fun entries' => ?_⟩
    rw [hskip]
    rfl
  · simp only [hlookup] at hread ⊢
    obtain ⟨hfield, -⟩ := (hformed.byTag _ field).mp hlookup
    by_cases hpacked : field.flags.packed = true ∧ keyWireType key = wiretypeLengthDelim
    · simp only [if_pos hpacked] at hread ⊢
      exact packedBlock_delivers hformed hfield hpacked.1 hread
    · simp only [if_neg hpacked] at hread ⊢
      exact singleField_delivers hfield hread

/-- **A byte string that is accepted once** delivers the same whatever is filled. -/
theorem message_delivers (hformed : schema.WellFormed registry) (asObject : Bool)
    (hread : Wire.message ctx (depth + 1) schema bytes (container asObject entries) = .ok out) :
    ∃ made : List Delivery, (∀ delivery ∈ made, delivery.Of schema) ∧ ∀ entries',
      Wire.message ctx (depth + 1) schema bytes (container asObject entries') =
        Wire.lift (made.foldlM (Delivery.apply asObject) entries') >>=
          fun final => .ok (container asObject final) := by
  obtain ⟨action, ⟨made, hmade, rfl⟩, hall⟩ := drainAll_uniform (container asObject)
    (fun action => ∃ made : List Delivery, (∀ delivery ∈ made, delivery.Of schema) ∧
      action = fun entries => Wire.lift (made.foldlM (Delivery.apply asObject) entries))
    ⟨[], by simp, rfl⟩ (by
      rintro _ _ ⟨first, hfirst, rfl⟩ ⟨second, hsecond, rfl⟩
      refine ⟨first ++ second, fun delivery hdelivery => ?_, ?_⟩
      · exact (List.mem_append.mp hdelivery).elim (hfirst delivery) (hsecond delivery)
      · simp only [List.foldlM_append, Wire.lift_bind])
    (Wire.field_shrinks ctx (Wire.message ctx depth) schema) (by
      intro input start rest middle hstep
      obtain ⟨made, hmade, hfield⟩ := field_delivers hformed hstep
      exact ⟨_, ⟨made, hmade, rfl⟩, hfield⟩) hread
  exact ⟨made, hmade, hall⟩

end

/-! ### Lengths that stay inside -/

theorem block_overrun {memory : Memory} (hend : bufEnd < 2 ^ 64) {fault : Fault}
    (hblock : Wire.block fault (window memory ptr bufEnd) = .error .overrun) :
    ∃ len q, decodeVarint memory ptr bufEnd = some (len, q) ∧ bufEnd < q + len.toNat := by
  have hagrees := decodeVarint_agrees memory hend ptr
  unfold Wire.block at hblock
  rcases hvarint : Wire.varint (window memory ptr bufEnd) with _ | ⟨len, rest⟩
  · simp only [hvarint] at hblock
    cases hblock
  · rw [hvarint] at hagrees
    obtain ⟨q, -, hle, rfl, hread⟩ := hagrees
    simp only [hvarint, length_window] at hblock
    split at hblock
    · exact ⟨len, q, hread, by omega⟩
    · cases hblock

section

theorem lift_ok {result : Except Fault α} {value : α} (hlift : Wire.lift result = .ok value) :
    result = .ok value := by
  cases result with
  | error fault => cases hlift
  | ok found =>
    cases hlift
    rfl

theorem lift_ne_overrun (result : Except Fault α) : Wire.lift result ≠ .error .overrun := by
  cases result <;> nofun

theorem readOrFail_ne_overrun (read : Option (α × Bytes)) (convert : α → Zval) :
    Wire.readOrFail read convert ≠ .error .overrun := by
  rcases read with _ | ⟨value, rest⟩ <;> nofun

theorem value_overrun (hreading : ctx.reading = .asWritten)
    (hvalue : Wire.value ctx nested field wireType bytes = .error .overrun) :
    Wire.layout field.type = some .delimited ∧
      (wireType = field.wireType ∨ field.flags.packed = true) ∧
      Wire.block .silent bytes = .error .overrun := by
  unfold Wire.value at hvalue
  split at hvalue
  · cases hvalue
  · rename_i hmatch
    have hwire : wireType = field.wireType ∨ field.flags.packed = true := by
      by_cases heq : wireType = field.wireType
      · exact .inl heq
      · exact .inr (by simpa [heq] using hmatch)
    split at hvalue
    · exact absurd hvalue (readOrFail_ne_overrun _ _)
    · exact absurd hvalue (readOrFail_ne_overrun _ _)
    · exact absurd hvalue (readOrFail_ne_overrun _ _)
    · rename_i hlayout
      refine ⟨hlayout, hwire, ?_⟩
      rcases bind_eq_error.mp hvalue with hblock | ⟨⟨content, rest⟩, -, hrest⟩
      · exact hblock
      · simp only [Wire.delimitedValue, hreading] at hrest
        cases hrest
    · cases hvalue

theorem packedBlock_overrun (hreading : ctx.reading = .asWritten)
    (hpackable : isPackable field.type = true) {returnZval : Zval}
    (hpacked : Wire.packedBlock ctx nested field bytes returnZval = .error .overrun) :
    Wire.block .silent bytes = .error .overrun := by
  have hitem : ∀ input sub, Wire.packedItem ctx nested field input sub ≠ .error .overrun := by
    intro input sub hoverrun
    rcases bind_eq_error.mp hoverrun with hvalue | ⟨⟨rest, item⟩, -, hpush⟩
    · exact layout_of_isPackable hpackable (value_overrun hreading hvalue).1
    · rcases bind_eq_error.mp hpush with hlift | ⟨sub', -, hok⟩
      · exact lift_ne_overrun _ hlift
      · cases hok
  rcases bind_eq_error.mp hpacked with hblock | ⟨⟨content, rest⟩, -, hrest⟩
  · exact hblock
  · rcases bind_eq_error.mp hrest with hlift | ⟨entries, -, hrest⟩
    · exact absurd hlift (lift_ne_overrun _)
    · rcases bind_eq_error.mp hrest with hdrain | ⟨sub, -, hok⟩
      · refine absurd hdrain (ends_ne_iff.mp ?_)
        exact ends_drainAll (Wire.packedItem_shrinks ctx nested field)
          (fun input sub _ => ends_ne_iff.mpr (hitem input sub)) content _
      · cases hok

theorem skip_overrun {fault : Fault} (hskip : Wire.skip fault wireType bytes = .error .overrun) :
    wireType = wiretypeLengthDelim ∧ Wire.block fault bytes = .error .overrun := by
  unfold Wire.skip at hskip
  split at hskip
  · split at hskip <;> cases hskip
  split at hskip
  · split at hskip <;> cases hskip
  split at hskip
  · rename_i hdelimited
    rcases bind_eq_error.mp hskip with hblock | ⟨_, -, hok⟩
    · exact ⟨hdelimited, hblock⟩
    · cases hok
  split at hskip
  · split at hskip <;> cases hskip
  · cases hskip

/-- An iteration that overruns has read a length that leads out of the input. -/
theorem field_overrun (hreading : ctx.reading = .asWritten) (hformed : schema.WellFormed registry)
    {memory : Memory} (hend : bufEnd < 2 ^ 64) {returnZval : Zval}
    (hfield : Wire.field ctx nested schema (window memory ptr bufEnd) returnZval =
      .error .overrun) :
    ∃ q len, embeddedLength memory schema bufEnd ptr = some (q, len) ∧ bufEnd < q + len := by
  have hagrees := decodeVarint_agrees memory hend ptr
  rcases hkey : Wire.varint (window memory ptr bufEnd) with _ | ⟨key, rest⟩
  · simp only [Wire.field, hkey] at hfield
    cases hfield
  rw [hkey] at hagrees
  obtain ⟨after, -, -, rfl, hread⟩ := hagrees
  simp only [Wire.field, hkey, Wire.fieldBody] at hfield
  by_cases hzero : keyTag key = 0
  · simp only [if_pos hzero] at hfield
    cases hfield
  simp only [if_neg hzero] at hfield
  -- it is enough that the iteration carries a length and that this length overruns
  suffices hlength :
      carriesLength (schema.fieldsByTag.lookup (keyTag key)) (keyWireType key) = true ∧
      ∃ fault, Wire.block fault (window memory after bufEnd) = .error .overrun by
    obtain ⟨hcarries, fault, hblock⟩ := hlength
    obtain ⟨len, q, hvarint, hlt⟩ := block_overrun hend hblock
    refine ⟨q, len.toNat, ?_, hlt⟩
    simp only [embeddedLength, hread, if_neg hzero, hcarries, if_true, hvarint]
  rcases hlookup : schema.fieldsByTag.lookup (keyTag key) with _ | field
  · simp only [hlookup] at hfield
    rcases bind_eq_error.mp hfield with hskip | ⟨_, -, hok⟩
    · obtain ⟨hdelimited, hblock⟩ := skip_overrun hskip
      exact ⟨by simp [carriesLength, hdelimited], _, hblock⟩
    · cases hok
  · simp only [hlookup] at hfield
    obtain ⟨hmember, -⟩ := (hformed.byTag _ field).mp hlookup
    split at hfield
    · rename_i hpacked
      refine ⟨by simp [carriesLength, hpacked], .silent, ?_⟩
      exact packedBlock_overrun hreading ((hformed.fields field hmember).packed hpacked.1).2 hfield
    · rcases bind_eq_error.mp hfield with hvalue | ⟨_, -, hstore⟩
      · obtain ⟨hlayout, hwire, hblock⟩ := value_overrun hreading hvalue
        exact ⟨by simp [carriesLength, hlayout, hwire], .silent, hblock⟩
      · rcases bind_eq_error.mp hstore with hlift | ⟨_, -, hok⟩
        · exact absurd hlift (lift_ne_overrun _)
        · cases hok

end

/-- No iteration of the run reads a length that is larger than what is left of the input. -/
def LengthsInside (wire : WireContext) (fuel depth : Nat) (schema : CompiledSchema)
    (buffer : Buffer) (start : Zval) : Prop :=
  ∀ state, Reaches buffer.stop (iteration wire fuel depth schema buffer)
    (buffer.base, start) state →
    ∀ q len, embeddedLength buffer.memory schema buffer.stop state.1 = some (q, len) →
      q + len ≤ buffer.stop

/-- Every single element that the run reads finds the list of its field: no turn makes one. -/
def ListsFound (wire : WireContext) (fuel depth : Nat) (schema : CompiledSchema)
    (buffer : Buffer) (start : Zval) : Prop :=
  ∀ state, Reaches buffer.stop (iteration wire fuel depth schema buffer)
    (buffer.base, start) state → state.1 < buffer.stop →
    Wire.makesList schema (window buffer.memory state.1 buffer.stop) state.2 = false

section

variable {wire : WireContext} (hreading : wire.reading = .asWritten)
  (hformed : schema.WellFormed wire.registry) {fuel : Nat} {buffer : Buffer}
  (hfuel : buffer.bytes.length ≤ fuel) {start : Zval}

include hfuel in
/-- The turns of the decoder and of the list-level decoder, on every window of the buffer. -/
theorem iteration_agrees (p : Nat) (returnZval : Zval) (hp : buffer.base ≤ p)
    (hlt : p < buffer.stop) :
    Agrees buffer.memory (p + 1) buffer.stop
      (Wire.field wire (Wire.message wire depth) schema (window buffer.memory p buffer.stop)
        returnZval)
      (iteration wire fuel depth schema buffer p returnZval) := by
  exact decodeField_agrees (decodeMessageInternal_agrees ⟨wire, buffer.memory, fuel⟩ depth) schema
    (buffer.low.trans hp) hlt buffer.stop_high (buffer.left_le hfuel hp) returnZval

include hfuel in
theorem iteration_agrees_kept (p : Nat) (returnZval : Zval) (hp : buffer.base ≤ p)
    (hlt : p < buffer.stop) :
    Agrees buffer.memory (p + 1) buffer.stop
      (Wire.keptField wire (Wire.message wire depth) schema (window buffer.memory p buffer.stop)
        returnZval)
      (iteration wire fuel depth schema buffer p returnZval) := by
  unfold Wire.keptField
  split
  · trivial
  · exact iteration_agrees hfuel p returnZval hp hlt

variable (hinside : LengthsInside wire fuel depth schema buffer start)
  (hread : decodeMessageInternal ⟨wire, buffer.memory, fuel⟩ (depth + 1) buffer.base buffer.stop
    schema start = .ok (ptr, out))

include hreading hformed hfuel hinside hread

/-- In a run that is accepted, with its lengths inside the input, every turn is one of the
    list-level decoder. -/
theorem field_of_reached {state : Nat × Zval}
    (hreach : Reaches buffer.stop (iteration wire fuel depth schema buffer) (buffer.base, start)
      state) (hbase : buffer.base ≤ state.1) (hlt : state.1 < buffer.stop) :
    ∃ next, Wire.field wire (Wire.message wire depth) schema
      (window buffer.memory state.1 buffer.stop) state.2 = .ok next := by
  obtain ⟨less, hrest⟩ := hreach.continues hread
  obtain ⟨-, p, s, hturn, -⟩ := whileBelow_first hlt hrest
  have hagrees : Agrees buffer.memory (state.1 + 1) buffer.stop _
      (iteration wire fuel depth schema buffer state.1 state.2) :=
    iteration_agrees hfuel state.1 state.2 hbase hlt
  rcases hfield : Wire.field wire (Wire.message wire depth) schema
    (window buffer.memory state.1 buffer.stop) state.2 with (_ | fault) | next
  · obtain ⟨q, len, hlength, hbeyond⟩ :=
      field_overrun hreading hformed (Nat.lt_of_add_right_lt buffer.stop_high) hfield
    have hfits := hinside state hreach q len hlength
    omega
  · rw [hfield] at hagrees
    cases hturn.symm.trans hagrees
  · exact ⟨next, rfl⟩

/-- Such a run yields what the bytes mean. -/
theorem message_of_decoded : Wire.message wire (depth + 1) schema buffer.bytes start = .ok out := by
  have hagrees := decodeMessageInternal_buffer buffer wire hfuel (depth + 1) schema start
  rw [hread] at hagrees
  rcases hmessage : Wire.message wire (depth + 1) schema buffer.bytes start with
    (_ | fault) | result <;> rw [hmessage] at hagrees
  · rw [Wire.message, ← buffer.window_eq] at hmessage
    obtain ⟨p, s, hreaches, hbase, hlt, hoverrun⟩ := reaches_overrun
      (Wire.field_shrinks wire (Wire.message wire depth) schema) (iteration_agrees hfuel)
      (Nat.le_refl buffer.base) hmessage
    obtain ⟨next, hfield⟩ :=
      field_of_reached hreading hformed hfuel hinside hread hreaches hbase hlt
    cases hoverrun.symm.trans hfield
  · cases hagrees
  · cases hagrees
    rfl

/-- The stopped decoder gets through the bytes of such a run exactly if no turn makes a list. -/
theorem keptMessage_iff_listsFound :
    (∃ result, Wire.keptMessage wire depth schema buffer.bytes start = .ok result) ↔
      ListsFound wire fuel depth schema buffer start := by
  unfold Wire.keptMessage
  rw [← buffer.window_eq]
  constructor
  · rintro ⟨result, hkept⟩ state hreach hlt
    obtain ⟨next, hturn⟩ := reaches_step_ok Wire.keptField_shrinks (iteration_agrees_kept hfuel)
      hreach hlt (Nat.le_refl buffer.base) hkept
    exact (Wire.keptField_ok.mp hturn).1
  · intro hfound
    rcases hkept : drainAll .overrun (Wire.keptField wire (Wire.message wire depth) schema)
      (window buffer.memory buffer.base buffer.stop) start with (_ | fault) | result
    · obtain ⟨p, s, hreaches, hbase, hlt, hoverrun⟩ := reaches_overrun Wire.keptField_shrinks
        (iteration_agrees_kept hfuel) (Nat.le_refl buffer.base) hkept
      obtain ⟨next, hfield⟩ :=
        field_of_reached hreading hformed hfuel hinside hread hreaches hbase hlt
      have hturn := Wire.keptField_ok.mpr ⟨hfound _ hreaches hlt,
        readsPointer_of_field_ok hreading hformed hfield, hfield⟩
      cases hoverrun.symm.trans hturn
    · have hend : AgreesAtEnd buffer.stop _ (whileBelow .fuel buffer.stop
          (iteration wire fuel depth schema buffer) fuel buffer.base start) :=
        whileBelow_of_drain .fuel Wire.keptField_shrinks (iteration_agrees_kept hfuel)
          fuel buffer.base start le_rfl buffer.base_le_stop (buffer.left_le hfuel le_rfl)
      rw [hkept] at hend
      cases hread.symm.trans hend
    · exact ⟨result, hkept⟩

end

/-! ### Merging -/

/-- The merge of two members of one name: lists are appended, and of two values the second
    counts. -/
def mergeMember (field : FieldDef) (first : Option Zval) : Option Zval → Option Zval
  | none => first
  | some given =>
    if field.flags.repeated then
      some (.array (listTable (listed first ++ listed (some given))))
    else some given

theorem foldl_change_merge {made : List Delivery}
    (hkind : ∀ delivery ∈ made, delivery.isList = field.flags.repeated) (old : Option Zval) :
    made.foldl (fun old delivery => some (delivery.change old)) old =
      mergeMember field old
        (made.foldl (fun old delivery => some (delivery.change old)) none) := by
  by_cases hmade : made = []
  · subst hmade
    rfl
  · cases hrepeated : field.flags.repeated with
    | true =>
      rw [hrepeated] at hkind
      rw [foldl_change_lists hmade hkind, foldl_change_lists hmade hkind, mergeMember,
        if_pos hrepeated, listed_list]
      rfl
    | false =>
      rw [hrepeated] at hkind
      obtain ⟨item, hitem⟩ := foldl_change_values hmade hkind
      rw [hitem, hitem, mergeMember, hrepeated, if_neg Bool.false_ne_true]

section

variable {made : List Delivery}

theorem Delivery.Of.exists_field (hnamed : schema.Named) {delivery : Delivery}
    (hof : delivery.Of schema) : ∃ field ∈ schema.orderedFields,
      delivery.isList = field.flags.repeated ∧ delivery.key asObject = .str field.nameInPhp := by
  cases delivery with
  | value field item =>
    obtain ⟨hfield, hsingular⟩ := hof
    exact ⟨field, hfield, hsingular.symm,
      valueKey_eq_str_iff.mpr (.inr (hnamed.textual field hfield))⟩
  | list field items =>
    obtain ⟨hfield, hrepeated⟩ := hof
    exact ⟨field, hfield, hrepeated.symm, rfl⟩

theorem Delivery.Of.isList_eq (hnamed : schema.Named) {delivery : Delivery}
    (hof : delivery.Of schema) (hfield : field ∈ schema.orderedFields)
    (hkey : delivery.key asObject = .str field.nameInPhp) :
    delivery.isList = field.flags.repeated := by
  obtain ⟨other, hother, hkind, hkey'⟩ := hof.exists_field hnamed
  rw [hkey] at hkey'
  have hsame : field = other :=
    List.inj_on_of_nodup_map hnamed.distinct hfield hother (Key.str.inj hkey')
  rw [hkind, hsame]

/-- With different names, deliveries for the fields of a schema are compatible. -/
theorem compatible_of_schema (asObject : Bool) (hnamed : schema.Named)
    (hmade : ∀ delivery ∈ made, delivery.Of schema) : Compatible asObject made [] := by
  constructor
  · intro delivery _ _
    exact IsListed.none
  · intro first hfirst second hsecond hkey
    obtain ⟨field, hfield, hkind, hkey'⟩ := (hmade second hsecond).exists_field hnamed
    rw [hkind]
    exact (hmade first hfirst).isList_eq hnamed hfield (hkey.trans hkey')

theorem lookup_made_other (hnamed : schema.Named) (hmade : ∀ delivery ∈ made, delivery.Of schema)
    {key : Key} (hother : ∀ field ∈ schema.orderedFields, key ≠ .str field.nameInPhp) :
    (replay (made.map (Delivery.entry asObject)) []).lookup key = none := by
  rw [lookup_replay_of_not_mem]
  · rfl
  · intro change hchange hkey
    obtain ⟨delivery, hdelivery, rfl⟩ := List.mem_map.mp hchange
    obtain ⟨field, hfield, -, hkey'⟩ := (hmade delivery hdelivery).exists_field hnamed
    exact hother field hfield (hkey.symm.trans hkey')

/-- The merge of two tables, field by field, and nothing besides. -/
def Merges (schema : CompiledSchema) (entries₁ entries₂ entries : HashTable) : Prop :=
  (∀ field ∈ schema.orderedFields, entries.lookup (.str field.nameInPhp) =
    mergeMember field (entries₁.lookup (.str field.nameInPhp))
      (entries₂.lookup (.str field.nameInPhp))) ∧
  ∀ key, (∀ field ∈ schema.orderedFields, key ≠ .str field.nameInPhp) →
    entries.lookup key = none

/-- What two byte strings mean, the second one read where the first one ends. -/
theorem message_merges (hformed : schema.WellFormed ctx.registry) (hnamed : schema.Named)
    {first second : Bytes} {out₁ out₂ : Zval}
    (hfirst : Wire.message ctx (depth + 1) schema first (.array []) = .ok out₁)
    (hsecond : Wire.message ctx (depth + 1) schema second (.array []) = .ok out₂) :
    ∃ entries₁ entries₂ entries, out₁ = .array entries₁ ∧ out₂ = .array entries₂ ∧
      Wire.message ctx (depth + 1) schema second (.array entries₁) = .ok (.array entries) ∧
      Merges schema entries₁ entries₂ entries := by
  obtain ⟨made₁, hmade₁, hdeliver₁⟩ := message_delivers hformed false hfirst
  obtain ⟨made₂, hmade₂, hdeliver₂⟩ := message_delivers hformed false hsecond
  have hmade : ∀ delivery ∈ made₁ ++ made₂, delivery.Of schema := fun delivery hdelivery =>
    (List.mem_append.mp hdelivery).elim (hmade₁ delivery) (hmade₂ delivery)
  have hfold₁ := foldlM_apply_eq (compatible_of_schema false hnamed hmade₁)
  have hfold₂ := foldlM_apply_eq (compatible_of_schema false hnamed hmade₂)
  have hfold := foldlM_apply_eq (compatible_of_schema false hnamed hmade)
  have hout₁ : out₁ = .array (replay (made₁.map (Delivery.entry false)) []) := by
    have hhere := hdeliver₁ []
    rw [hfold₁] at hhere
    exact Except.ok.inj (hfirst.symm.trans hhere)
  have hout₂ : out₂ = .array (replay (made₂.map (Delivery.entry false)) []) := by
    have hhere := hdeliver₂ []
    rw [hfold₂] at hhere
    exact Except.ok.inj (hsecond.symm.trans hhere)
  refine ⟨_, _, replay ((made₁ ++ made₂).map (Delivery.entry false)) [], hout₁, hout₂,
    ?_, ?_, ?_⟩
  · have hhere := hdeliver₂ (replay (made₁.map (Delivery.entry false)) [])
    rw [List.foldlM_append, hfold₁] at hfold
    rw [show made₂.foldlM (Delivery.apply false) _ = .ok _ from hfold] at hhere
    exact hhere
  · intro field hfield
    rw [List.map_append, replay_append, lookup_deliveries false made₂,
      lookup_deliveries false made₂]
    apply foldl_change_merge
    intro delivery hdelivery
    obtain ⟨hmem, hkey⟩ := List.mem_filter.mp hdelivery
    exact (hmade₂ delivery hmem).isList_eq hnamed hfield (of_decide_eq_true hkey)
  · intro key hother
    exact lookup_made_other hnamed hmade hother

end

/-! ### Lists that are found -/

/-- A list that is found is also found among more entries. -/
theorem makesList_mono {more : HashTable}
    (hmore : ∀ key, (entries.lookup key).isSome → (more.lookup key).isSome)
    (hmakes : Wire.makesList schema bytes (.array entries) = false) :
    Wire.makesList schema bytes (.array more) = false := by
  rcases hkey : Wire.varint bytes with _ | ⟨key, rest⟩
  · simp only [Wire.makesList, hkey]
  · simp only [Wire.makesList, hkey, startsList] at hmakes ⊢
    split
    · rfl
    · rename_i field hknown
      simp only [hknown, ← Option.not_isSome, Bool.and_eq_false_iff,
        Bool.not_eq_false'] at hmakes ⊢
      exact hmakes.imp_right (hmore _)

section

/-- The stopped decoder, started with more entries, gets as far as the decoder. -/
theorem keptMessage_of_more (hformed : schema.WellFormed ctx.registry) {more : HashTable}
    {final : Zval} (hmore : ∀ key, (entries.lookup key).isSome → (more.lookup key).isSome)
    (hkept : Wire.keptMessage ctx depth schema bytes (.array entries) = .ok out)
    (hmessage : Wire.message ctx (depth + 1) schema bytes (.array more) = .ok final) :
    Wire.keptMessage ctx depth schema bytes (.array more) = .ok final := by
  rw [Wire.keptMessage] at hkept ⊢
  rw [Wire.message] at hmessage
  -- the two runs read the same turns, and the entries of the first stay among the second's
  induction hlen : bytes.length using Nat.strongRecOn generalizing bytes entries more with
  | ind n ih =>
    by_cases hempty : bytes = []
    · subst hempty
      exact hmessage
    · rcases hturn : Wire.keptField ctx (Wire.message ctx depth) schema bytes (.array entries)
        with err | ⟨rest, middle⟩
      · rw [drainAll_error hempty hturn] at hkept
        cases hkept
      · obtain ⟨hmakes, hpointer, hfield⟩ := Wire.keptField_ok.mp hturn
        obtain ⟨made, -, hall⟩ : Delivers schema false _ rest := field_delivers hformed hfield
        obtain ⟨here, hhere, hout⟩ := bind_eq_ok.mp ((hall entries).symm.trans hfield)
        cases hout
        rcases hfield' : Wire.field ctx (Wire.message ctx depth) schema bytes (.array more) with
          err | ⟨rest', middle'⟩
        · rw [drainAll_error hempty hfield'] at hmessage
          cases hmessage
        · obtain ⟨there, hthere, hout⟩ := bind_eq_ok.mp ((hall more).symm.trans hfield')
          cases hout
          have hturn' := Wire.keptField_ok.mpr ⟨makesList_mono hmore hmakes, hpointer, hfield'⟩
          rw [drainAll_step Wire.keptField_shrinks hempty hturn] at hkept
          rw [drainAll_step (Wire.field_shrinks ctx _ schema) hempty hfield'] at hmessage
          rw [drainAll_step Wire.keptField_shrinks hempty hturn']
          have hless := Wire.keptField_shrinks _ _ _ _ hturn
          refine ih rest.length (by omega) (fun key hsome => ?_) hkept hmessage rfl
          rw [isSome_lookup_foldlM (lift_ok hhere)] at hsome
          rw [isSome_lookup_foldlM (lift_ok hthere)]
          exact hsome.imp_left (hmore key)

theorem values_of_tracked {ctx : DecodeContext} {last : Nat} {start : HashTable}
    {filled : Filling}
    (hread : decodeMessageTracked ctx depth ptr bufEnd schema (.ofEntries start) =
      .ok (last, filled)) :
    ∃ out, decodeMessageInternal ctx depth ptr bufEnd schema (.array start) = .ok (last, out) := by
  have hfollows := decodeMessageTracked_follows ctx depth ptr bufEnd schema _ _
    (Filling.ofEntries_shows start)
  rw [hread] at hfollows
  obtain ⟨⟨_, out⟩, hvalues, rfl, -⟩ := hfollows
  exact ⟨out, hvalues⟩

/-- What a run that is accepted has filled in is still there exactly if the stopped decoder
    gets through. -/
theorem tracked_kept_iff (hreading : ctx.reading = .asWritten)
    (hformed : schema.WellFormed ctx.registry) {buffer : Buffer} {fuel : Nat}
    (hfuel : buffer.bytes.length ≤ fuel) {start : HashTable} {filled : Filling}
    (hmessage : Wire.message ctx (depth + 1) schema buffer.bytes (.array start) = .ok out)
    (hread : decodeMessageTracked ⟨ctx, buffer.memory, fuel⟩ (depth + 1) buffer.base buffer.stop
      schema (.ofEntries start) = .ok (ptr, filled)) :
    (∃ entries, filled = .ofEntries entries) ↔
      ∃ result, Wire.keptMessage ctx depth schema buffer.bytes (.array start) = .ok result := by
  constructor
  · rintro ⟨entries, rfl⟩
    by_contra hlost
    obtain ⟨key, hdangling⟩ := decodeMessageTracked_lost hfuel start hreading hformed hmessage
      (not_exists.mp hlost) hread
    rw [Filling.lookup_ofEntries] at hdangling
    obtain ⟨value, -, hvalue⟩ := Option.map_eq_some_iff.mp hdangling
    cases hvalue
  · rintro ⟨result, hkept⟩
    obtain ⟨entries, -, hrun⟩ := decodeMessageTracked_kept hfuel start hkept
    cases hread.symm.trans hrun
    exact ⟨entries, rfl⟩

end

/-- **Concatenation is merge if no list is made.** Two byte strings that
    `decode_message_internal` accepts from an empty array, with every length inside its own
    string: both results are still there, the two strings are accepted one behind the other and
    the result is the merge, exactly if no turn of the two runs makes a list. -/
theorem concatenation_merges_iff (wire : WireContext) (hreading : wire.reading = .asWritten)
    (hreach : Reachable NulFree wire.registry) (schemaName : Bytes) (schema : CompiledSchema)
    (hschema : getCompiledIibinSchemaInternal wire.registry schemaName = some schema) (depth : Nat)
    (first second both : Buffer) (hboth : both.bytes = first.bytes ++ second.bytes)
    (fuel₁ fuel₂ fuel : Nat) (hfuel₁ : first.bytes.length ≤ fuel₁)
    (hfuel₂ : second.bytes.length ≤ fuel₂) (hfuel : both.bytes.length ≤ fuel) (ptr₁ ptr₂ : Nat)
    (filled₁ filled₂ : Filling)
    (hfirst : decodeMessageTracked ⟨wire, first.memory, fuel₁⟩ (depth + 1) first.base first.stop
      schema (.ofEntries []) = .ok (ptr₁, filled₁))
    (hinside₁ : LengthsInside wire fuel₁ depth schema first (.array []))
    (hsecond : decodeMessageTracked ⟨wire, second.memory, fuel₂⟩ (depth + 1) second.base
      second.stop schema (.ofEntries []) = .ok (ptr₂, filled₂))
    (hinside₂ : LengthsInside wire fuel₂ depth schema second (.array [])) :
    (∃ entries₁ entries₂ entries, filled₁ = .ofEntries entries₁ ∧ filled₂ = .ofEntries entries₂ ∧
      decodeMessageTracked ⟨wire, both.memory, fuel⟩ (depth + 1) both.base both.stop schema
        (.ofEntries []) = .ok (both.stop, .ofEntries entries) ∧
      Merges schema entries₁ entries₂ entries) ↔
    ListsFound wire fuel₁ depth schema first (.array []) ∧
      ListsFound wire fuel₂ depth schema second (.array []) := by
  have hformed := hreach.layered.wellFormed hschema
  -- the two runs, on values
  obtain ⟨out₁, hvalues₁⟩ := values_of_tracked hfirst
  obtain ⟨out₂, hvalues₂⟩ := values_of_tracked hsecond
  have hmeaning₁ := message_of_decoded hreading hformed hfuel₁ hinside₁ hvalues₁
  have hmeaning₂ := message_of_decoded hreading hformed hfuel₂ hinside₂ hvalues₂
  rw [← keptMessage_iff_listsFound hreading hformed hfuel₁ hinside₁ hvalues₁,
    ← keptMessage_iff_listsFound hreading hformed hfuel₂ hinside₂ hvalues₂,
    ← tracked_kept_iff hreading hformed hfuel₁ hmeaning₁ hfirst,
    ← tracked_kept_iff hreading hformed hfuel₂ hmeaning₂ hsecond]
  constructor
  · rintro ⟨entries₁, entries₂, -, hthere₁, hthere₂, -⟩
    exact ⟨⟨entries₁, hthere₁⟩, entries₂, hthere₂⟩
  · intro hthere
    obtain ⟨result₁, hkept₁⟩ :=
      (tracked_kept_iff hreading hformed hfuel₁ hmeaning₁ hfirst).mp hthere.1
    obtain ⟨result₂, hkept₂⟩ :=
      (tracked_kept_iff hreading hformed hfuel₂ hmeaning₂ hsecond).mp hthere.2
    obtain ⟨entries₁, hresult₁, hrun₁⟩ := decodeMessageTracked_kept hfuel₁ [] hkept₁
    obtain ⟨entries₂, hresult₂, hrun₂⟩ := decodeMessageTracked_kept hfuel₂ [] hkept₂
    cases hfirst.symm.trans hrun₁
    cases hsecond.symm.trans hrun₂
    subst hresult₁ hresult₂
    obtain ⟨_, _, entries, hsame₁, hsame₂, hthrough, hmerges⟩ := message_merges hformed
      (hreach.named hschema) (Wire.message_of_kept hkept₁) (Wire.message_of_kept hkept₂)
    cases hsame₁
    cases hsame₂
    have hkept : Wire.keptMessage wire depth schema both.bytes (.array []) =
        .ok (.array entries) := by
      rw [hboth]
      refine (drainAll_append Wire.keptField_shrinks Wire.keptField_local hkept₁).trans ?_
      exact keptMessage_of_more hformed (fun key hsome => by cases hsome) hkept₂ hthrough
    obtain ⟨final, hfinal, hrun⟩ := decodeMessageTracked_kept hfuel [] hkept
    cases hfinal
    exact ⟨entries₁, entries₂, entries, rfl, rfl, hrun, hmerges⟩

def listRegistry : Registry := oneSchema (fieldOptions 1 "repeated_int32" [])

/-- A packed block with the items 1 and 2. -/
def firstBlockBuffer : Buffer := .placed [0x0a, 0x02, 0x01, 0x02] (by decide)

/-- A packed block with the item 3. -/
def secondBlockBuffer : Buffer := .placed [0x0a, 0x01, 0x03] (by decide)

def twoBlocksBuffer : Buffer := .placed [0x0a, 0x02, 0x01, 0x02, 0x0a, 0x01, 0x03] (by decide)

theorem concatenation_merges_blocks :
    ∃ schema entries, getCompiledIibinSchemaInternal listRegistry (ascii "P") = some schema ∧
      decodeMessageTracked ⟨arrayContext default listRegistry, twoBlocksBuffer.memory, 7⟩ 1
        twoBlocksBuffer.base twoBlocksBuffer.stop schema (.ofEntries []) =
          .ok (twoBlocksBuffer.stop, .ofEntries entries) ∧
      entries.lookup (.str (ascii "x")) =
        some (.array (listTable [.long 1, .long 2, .long 3])) := by
  obtain ⟨entries₁, entries₂, entries, hout₁, hout₂, hdecode, hmerges, -⟩ :=
    (concatenation_merges_iff (arrayContext default listRegistry) rfl
      (oneSchema_reachable (fieldOptions 1 "repeated_int32" [])) (ascii "P") _ rfl 0
      firstBlockBuffer secondBlockBuffer twoBlocksBuffer rfl 4 3 7 (by decide) (by decide)
      (by decide) 4100 4099 _ _ rfl (by
        intro state hreach q len hlength
        rcases Reaches.of_single rfl (by decide) hreach with rfl | rfl
        · cases hlength
          decide
        · cases hlength) rfl (by
        intro state hreach q len hlength
        rcases Reaches.of_single rfl (by decide) hreach with rfl | rfl
        · cases hlength
          decide
        · cases hlength)).mpr ⟨by
        intro state hreach hlt
        rcases Reaches.of_single rfl (by decide) hreach with rfl | rfl
        · rfl
        · exact absurd hlt (by decide), by
        intro state hreach hlt
        rcases Reaches.of_single rfl (by decide) hreach with rfl | rfl
        · rfl
        · exact absurd hlt (by decide)⟩
  have hfirst := Filling.lookup_ofEntries entries₁ (.str (ascii "x"))
  have hsecond := Filling.lookup_ofEntries entries₂ (.str (ascii "x"))
  rw [← hout₁] at hfirst
  rw [← hout₂] at hsecond
  obtain ⟨_, hlist₁, hlive₁⟩ := Option.map_eq_some_iff.mp hfirst.symm
  obtain ⟨_, hlist₂, hlive₂⟩ := Option.map_eq_some_iff.mp hsecond.symm
  cases hlive₁
  cases hlive₂
  have hmerged : entries.lookup (.str (ascii "x")) = mergeMember _
      (entries₁.lookup (.str (ascii "x"))) (entries₂.lookup (.str (ascii "x"))) :=
    hmerges _ List.mem_cons_self
  rw [hlist₁, hlist₂] at hmerged
  exact ⟨_, entries, rfl, hdecode, hmerged⟩

/-- The single item 1. -/
def firstItemBuffer : Buffer := .placed [0x08, 0x01] (by decide)

/-- The single item 2. -/
def secondItemBuffer : Buffer := .placed [0x08, 0x02] (by decide)

def twoItemsBuffer : Buffer := .placed [0x08, 0x01, 0x08, 0x02] (by decide)

/-- Two single elements of a list are accepted one by one; one behind the other, the second is
    appended to the list that was given back. -/
theorem concatenation_not_accepted :
    ∃ schema filled₁ filled₂,
      getCompiledIibinSchemaInternal listRegistry (ascii "P") = some schema ∧
      decodeMessageTracked ⟨arrayContext default listRegistry, firstItemBuffer.memory, 2⟩ 1
        firstItemBuffer.base firstItemBuffer.stop schema (.ofEntries []) =
          .ok (firstItemBuffer.stop, filled₁) ∧
      LengthsInside (arrayContext default listRegistry) 2 0 schema firstItemBuffer (.array []) ∧
      decodeMessageTracked ⟨arrayContext default listRegistry, secondItemBuffer.memory, 2⟩ 1
        secondItemBuffer.base secondItemBuffer.stop schema (.ofEntries []) =
          .ok (secondItemBuffer.stop, filled₂) ∧
      LengthsInside (arrayContext default listRegistry) 2 0 schema secondItemBuffer (.array []) ∧
      twoItemsBuffer.bytes = firstItemBuffer.bytes ++ secondItemBuffer.bytes ∧
      decodeMessageTracked ⟨arrayContext default listRegistry, twoItemsBuffer.memory, 4⟩ 1
        twoItemsBuffer.base twoItemsBuffer.stop schema (.ofEntries []) = .error .useAfterFree := by
  refine ⟨_, _, _, rfl, rfl, fun state hreach q len hlength => ?_, rfl,
    fun state hreach q len hlength => ?_, rfl, rfl⟩
  · rcases Reaches.of_single rfl (by decide) hreach with rfl | rfl <;> cases hlength
  · rcases Reaches.of_single rfl (by decide) hreach with rfl | rfl <;> cases hlength

end QuicproAsync.Iibin

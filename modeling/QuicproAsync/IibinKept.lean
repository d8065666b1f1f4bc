import QuicproAsync.IibinArrival
import QuicproAsync.IibinLifetimes

/-!
# Which lists are given back

A list that is decoded to an array is given back by the turn that makes it, if that turn
reads a single element (`startsList`). Here the list-level decoder is stopped at such a turn
and before a string or a message, `Wire.keptField`, and the run that watches lifetimes is
compared with it: everything is still there at the end exactly if the stopped decoder gets
through (`decodeMessageTracked_kept`, `decodeMessageTracked_lost`). For the bytes of a message
this comes down to the order in which its lists were written: `ListsKept`.
-/

namespace QuicproAsync.Iibin

open Php Fallible ScanLoop

namespace Wire

/-- The next turn makes a list and gives it back. -/
def makesList (schema : CompiledSchema) (bytes : Bytes) (returnZval : Zval) : Bool :=
  match varint bytes with
  | none => false
  | some (key, _) =>
    match returnZval with
    | .array entries => startsList schema key entries
    | _ => false

/-- The next turn reads a string or a message. -/
def readsPointer (schema : CompiledSchema) (bytes : Bytes) : Bool :=
  match varint bytes with
  | none => false
  | some (key, _) =>
    match schema.fieldsByTag.lookup (keyTag key) with
    | none => false
    | some field => keyTag key ≠ 0 && layout field.type = some .delimited

/-- One turn, stopped if it would give a list back or store a pointer. -/
def keptField (ctx : WireContext) (nested : Wire.MessageReader) (schema : CompiledSchema)
    (bytes : Bytes) (returnZval : Zval) : Answer (Bytes × Zval) :=
  if makesList schema bytes returnZval || readsPointer schema bytes then .error .overrun
  else field ctx nested schema bytes returnZval

def keptMessage (ctx : WireContext) (depth : Nat) (schema : CompiledSchema) (bytes : Bytes)
    (returnZval : Zval) : Answer Zval :=
  drainAll .overrun (keptField ctx (message ctx depth) schema) bytes returnZval

section

variable {ctx : WireContext} {nested : Wire.MessageReader} {schema : CompiledSchema}

theorem keptField_ok {bytes rest : Bytes} {returnZval result : Zval} :
    keptField ctx nested schema bytes returnZval = .ok (rest, result) ↔
      makesList schema bytes returnZval = false ∧ readsPointer schema bytes = false ∧
        field ctx nested schema bytes returnZval = .ok (rest, result) := by
  unfold keptField
  cases makesList schema bytes returnZval <;> cases readsPointer schema bytes <;> simp

theorem keptField_shrinks : Shrinks (keptField ctx nested schema) := by
  intro bytes returnZval rest result hread
  exact field_shrinks ctx nested schema _ _ _ _ (keptField_ok.mp hread).2.2

theorem keptField_local : Local (keptField ctx nested schema) := by
  intro bytes returnZval rest result extra hread
  obtain ⟨hmakes, hpointer, hfield⟩ := keptField_ok.mp hread
  rcases hkey : varint bytes with _ | ⟨key, after⟩
  · rw [field, hkey] at hfield
    cases hfield
  · -- the two checks look at the key only
    have hmore := (varint_consumes hkey).2 extra
    refine keptField_ok.mpr ⟨?_, ?_, field_local ctx nested schema _ _ _ _ extra hfield⟩
    · simpa only [makesList, hkey, hmore] using hmakes
    · simpa only [readsPointer, hkey, hmore] using hpointer

/-- Where the stopped decoder gets through, so does the decoder. -/
theorem message_of_kept {depth : Nat} {bytes : Bytes} {returnZval result : Zval}
    (hkept : keptMessage ctx depth schema bytes returnZval = .ok result) :
    message ctx (depth + 1) schema bytes returnZval = .ok result := by
  rw [keptMessage] at hkept
  rw [message]
  induction hlen : bytes.length using Nat.strongRecOn generalizing bytes returnZval with
  | ind n ih =>
    by_cases hempty : bytes = []
    · subst hempty
      exact hkept
    · rcases hturn : keptField ctx (message ctx depth) schema bytes returnZval with
        err | ⟨rest, middle⟩
      · rw [drainAll_error hempty hturn] at hkept
        cases hkept
      · have hfield := (keptField_ok.mp hturn).2.2
        rw [drainAll_step keptField_shrinks hempty hturn] at hkept
        rw [drainAll_step (field_shrinks ctx _ schema) hempty hfield]
        have hless := keptField_shrinks _ _ _ _ hturn
        exact ih rest.length (by omega) hkept rfl

end

end Wire

/-! ### Runs that watch lifetimes -/

/-- As the source is written, a turn that ends well has not read a string or a message. -/
theorem readsPointer_of_field_ok {ctx : WireContext} (hreading : ctx.reading = .asWritten)
    {nested : Wire.MessageReader} {schema : CompiledSchema}
    (hformed : schema.WellFormed ctx.registry) {bytes : Bytes} {returnZval : Zval}
    {last : Bytes × Zval} (hturn : Wire.field ctx nested schema bytes returnZval = .ok last) :
    Wire.readsPointer schema bytes = false := by
  unfold Wire.readsPointer
  split
  · rfl
  · rename_i key after hread
    split
    · rfl
    · rename_i field hknown
      rw [Bool.and_eq_false_iff, decide_eq_false_iff_not, decide_eq_false_iff_not, ne_eq, not_not,
        or_iff_not_imp_left]
      intro hzero hdelimited
      have hunpacked : ¬ field.flags.packed = true := fun hpacked =>
        layout_of_isPackable ((hformed.fields field ((hformed.byTag _ field).mp hknown).1).packed
          hpacked).2 hdelimited
      simp only [Wire.field, hread, Wire.fieldBody, if_neg hzero, hknown,
        if_neg (fun hboth => hunpacked (And.left hboth))] at hturn
      obtain ⟨⟨rest, value⟩, hvalue, -⟩ := bind_eq_ok.mp hturn
      rw [Wire.value] at hvalue
      split at hvalue
      · cases hvalue
      · rw [hdelimited] at hvalue
        obtain ⟨⟨content, rest⟩, -, hvalue⟩ := bind_eq_ok.mp hvalue
        obtain ⟨decoded, hdecoded, -⟩ := bind_eq_ok.mp hvalue
        rw [Wire.delimitedValue, hreading] at hdecoded
        cases hdecoded

theorem Filling.Shows.array {filling : Filling} {entries : HashTable}
    (hshows : filling.Shows (.array entries)) :
    filling.asObject = false ∧ List.Forall₂ EntryShows filling.slots entries := by
  obtain ⟨asObject, slots⟩ := filling
  obtain ⟨shown, hshown, hslots⟩ := hshows
  cases asObject with
  | false =>
    cases hshown
    exact ⟨rfl, hslots⟩
  | true => cases hshown

theorem startsList_shows {slots : List (Key × Pointee)} {entries : HashTable}
    (hshows : List.Forall₂ EntryShows slots entries) (schema : CompiledSchema) (key : BitVec 64) :
    startsList schema key slots = startsList schema key entries := by
  unfold startsList
  split
  · rfl
  · simp only [← Option.not_isSome, isSome_lookup_shows hshows]

section

variable {ctx : DecodeContext} {schema : CompiledSchema} {depth stop : Nat}
  (hend : stop + 8 < 2 ^ 64) {p : Nat} {filling : Filling} {entries : HashTable}
  (hshows : filling.Shows (.array entries))

include hend hshows

/-- A turn that makes a list leaves it behind as one that dangles. -/
theorem decodeFieldTracked_makes
    (hmakes : Wire.makesList schema (window ctx.memory p stop) (.array entries) = true)
    {last : Nat × Filling}
    (hok : decodeFieldTracked ctx (decodeMessageTracked ctx depth) schema stop p filling =
      .ok last) : last.2.Dangles := by
  obtain ⟨hmode, hslots⟩ := hshows.array
  have hread := decodeVarint_agrees ctx.memory (show stop < 2 ^ 64 by omega) p
  unfold Wire.makesList at hmakes
  split at hmakes
  · cases hmakes
  · rename_i key after hkey
    rw [hkey] at hread
    obtain ⟨start, -, -, -, hread⟩ := hread
    replace hmakes : startsList schema key entries = true := hmakes
    rw [← startsList_shows hslots] at hmakes
    unfold startsList at hmakes
    split at hmakes
    · cases hmakes
    · rename_i field hknown
      simp only [Bool.and_eq_true, decide_eq_true_eq, Bool.not_eq_true',
        Option.isNone_iff_eq_none] at hmakes
      obtain ⟨⟨⟨hzero, hrepeated⟩, hsingle⟩, habsent⟩ := hmakes
      refine ⟨_, decodeFieldTracked_gives_back hread hzero hknown ?_ hok hmode
        (.inl ⟨hrepeated, habsent⟩)⟩
      rintro ⟨hpacked, hdelimited⟩
      simp [hpacked, hdelimited] at hsingle

/-- A turn that makes no list leaves everything in its place. -/
theorem decodeFieldTracked_keeps (hlow : 256 ≤ p) (hlt : p < stop)
    (hfuel : stop - p ≤ ctx.fuel) (hintact : filling.Intact) {rest : Bytes} {result : Zval}
    (hturn : Wire.keptField ctx.toWireContext (Wire.message ctx.toWireContext depth) schema
      (window ctx.memory p stop) (.array entries) = .ok (rest, result)) :
    ∃ q filled later, p < q ∧ q ≤ stop ∧ window ctx.memory q stop = rest ∧
      decodeFieldTracked ctx (decodeMessageTracked ctx depth) schema stop p filling =
        .ok (q, filled) ∧ filled.Intact ∧ result = .array later ∧
      filled.Shows (.array later) := by
  obtain ⟨hmakes, hpointer, hturn⟩ := Wire.keptField_ok.mp hturn
  have hagrees := decodeField_agrees (decodeMessageInternal_agrees ctx depth) schema hlow hlt hend
    hfuel (.array entries)
  rw [hturn] at hagrees
  obtain ⟨q, hq, hqle, hrest, hvalues⟩ := hagrees
  have hfollows : FollowsValues (Along Filling.Shows)
      (decodeFieldTracked ctx (decodeMessageTracked ctx depth) schema stop p filling)
      (decodeField ctx (decodeMessageInternal ctx depth) schema stop p (.array entries)) :=
    decodeFieldTracked_follows (decodeMessageTracked_follows ctx depth) schema stop p filling _
      hshows
  have hcalm : Calm (fun last => last.2.Intact ∧ last.2.asObject = filling.asObject)
      (decodeFieldTracked ctx (decodeMessageTracked ctx depth) schema stop p filling) := by
    refine decodeFieldTracked_calm (fun hobject ptr bufEnd schema => decodeMessageTracked_calm ctx
      depth ptr bufEnd (.inl hobject) (.empty true) hobject.symm) schema stop p hintact (.inr ?_)
    intro key start field hmemory hzero hknown
    -- the key is read alike from the memory and from the window
    have hread := decodeVarint_agrees ctx.memory (show stop < 2 ^ 64 by omega) p
    rcases hkey : Wire.varint (window ctx.memory p stop) with _ | ⟨listKey, after⟩ <;>
      rw [hkey] at hread
    · rw [show decodeVarint ctx.memory p stop = none from hread] at hmemory
      cases hmemory
    · obtain ⟨next, -, -, -, hread⟩ := hread
      rw [hread] at hmemory
      cases hmemory
      simp only [Wire.readsPointer, hkey, hknown, decide_eq_true hzero, Bool.true_and,
        decide_eq_false_iff_not] at hpointer
      refine ⟨hpointer, ?_⟩
      rw [startsList_shows hshows.array.2]
      simpa [Wire.makesList, hkey] using hmakes
  rw [hvalues] at hfollows
  revert hfollows hcalm
  rcases decodeFieldTracked ctx (decodeMessageTracked ctx depth) schema stop p filling with
    (fault | _) | ⟨next, filled⟩
  · intro hfollows _
    cases hfollows fault rfl
  · intro _ hcalm
    exact absurd rfl hcalm
  · rintro ⟨_, hresult, hnext, later, hlater, hslots⟩ ⟨hstays, hmode⟩
    cases hresult
    cases (show next = q from hnext)
    have harray : container filled.asObject later = .array later := by
      rw [show filled.asObject = false from hmode.trans hshows.array.1]
      rfl
    exact ⟨q, filled, later, hq, hqle, hrest, rfl, hstays, hlater.trans harray, later,
      harray.symm, hslots⟩

end

section

variable (ctx : DecodeContext) {schema : CompiledSchema} {depth stop : Nat}
  (hend : stop + 8 < 2 ^ 64) {fuel p : Nat} (hlow : 256 ≤ p) (hle : p ≤ stop)
  (hfuel : stop - p ≤ ctx.fuel) {filling : Filling} (hintact : filling.Intact)
  {entries : HashTable} (hshows : filling.Shows (.array entries)) {result : Zval}

include hend hlow hle hfuel hintact hshows

/-- A run in which no turn makes a list keeps everything. -/
theorem decodeLoopTracked_keeps (hbudget : stop - p ≤ fuel)
    (hkept : drainAll .overrun (Wire.keptField ctx.toWireContext
      (Wire.message ctx.toWireContext depth) schema) (window ctx.memory p stop) (.array entries) =
        .ok result) :
    ∃ filled later, whileBelow (.fault .fuel) stop
        (decodeFieldTracked ctx (decodeMessageTracked ctx depth) schema stop) fuel p filling =
          .ok (stop, filled) ∧ filled.Intact ∧ result = .array later ∧
      filled.Shows (.array later) := by
  induction fuel generalizing p filling entries with
  | zero =>
    have heq : p = stop := by omega
    subst heq
    rw [window_of_le ctx.memory (Nat.le_refl p), drainAll_nil] at hkept
    cases hkept
    exact ⟨filling, entries, whileBelow_done (Nat.le_refl p) 0 filling, hintact, rfl, hshows⟩
  | succ fuel ih =>
    by_cases hlt : p < stop
    · have hne : window ctx.memory p stop ≠ [] := by rw [window_cons ctx.memory hlt]; simp
      rcases hturn : Wire.keptField ctx.toWireContext (Wire.message ctx.toWireContext depth)
        schema (window ctx.memory p stop) (.array entries) with err | ⟨rest, middle⟩
      · rw [drainAll_error hne hturn] at hkept
        cases hkept
      · rw [drainAll_step Wire.keptField_shrinks hne hturn] at hkept
        obtain ⟨q, filled, later, hq, hqle, rfl, hfilled, hstays, rfl, hshown⟩ :=
          decodeFieldTracked_keeps hend hshows hlow hlt hfuel hintact hturn
        rw [whileBelow_step hlt hfilled]
        exact ih (by omega) hqle (by omega) hstays hshown (by omega) hkept
    · have heq : p = stop := by omega
      subst heq
      rw [window_of_le ctx.memory (Nat.le_refl p), drainAll_nil] at hkept
      cases hkept
      exact ⟨filling, entries, whileBelow_done (Nat.le_refl p) _ filling, hintact, rfl, hshows⟩

/-- A run in which a turn makes a list does not end with everything in its place. -/
theorem decodeLoopTracked_loses (hreading : ctx.reading = .asWritten)
    (hformed : schema.WellFormed ctx.registry)
    (hvalues : drainAll .overrun (Wire.field ctx.toWireContext
      (Wire.message ctx.toWireContext depth) schema) (window ctx.memory p stop) (.array entries) =
        .ok result)
    (hlost : ∀ result, drainAll .overrun (Wire.keptField ctx.toWireContext
      (Wire.message ctx.toWireContext depth) schema) (window ctx.memory p stop) (.array entries) ≠
        .ok result)
    {last : Nat × Filling} (hok : whileBelow (.fault .fuel) stop
      (decodeFieldTracked ctx (decodeMessageTracked ctx depth) schema stop) fuel p filling =
        .ok last) : last.2.Dangles := by
  induction fuel generalizing p filling entries with
  | zero =>
    by_cases hlt : p < stop
    · rw [whileBelow, if_pos hlt] at hok
      cases hok
    · rw [window_of_le ctx.memory (by omega)] at hlost
      exact absurd (drainAll_nil _) (hlost _)
  | succ fuel ih =>
    by_cases hlt : p < stop
    · have hne : window ctx.memory p stop ≠ [] := by rw [window_cons ctx.memory hlt]; simp
      rcases hturn : Wire.field ctx.toWireContext (Wire.message ctx.toWireContext depth) schema
        (window ctx.memory p stop) (.array entries) with err | ⟨rest, middle⟩
      · rw [drainAll_error hne hturn] at hvalues
        cases hvalues
      · rw [drainAll_step (Wire.field_shrinks _ _ schema) hne hturn] at hvalues
        cases hmakes : Wire.makesList schema (window ctx.memory p stop) (.array entries) with
        | true =>
          rcases htracked : decodeFieldTracked ctx (decodeMessageTracked ctx depth) schema stop
            p filling with err | ⟨q, filled⟩
          · rw [whileBelow_error hlt htracked] at hok
            cases hok
          · obtain ⟨key, hdangling⟩ := decodeFieldTracked_makes hend hshows hmakes htracked
            rw [whileBelow_step hlt htracked] at hok
            exact ⟨key, decodeLoopTracked_dangling hdangling hok⟩
        | false =>
          have hkept := Wire.keptField_ok.mpr
            ⟨hmakes, readsPointer_of_field_ok hreading hformed hturn, hturn⟩
          obtain ⟨q, filled, later, hq, hqle, rfl, hfilled, hstays, rfl, hshown⟩ :=
            decodeFieldTracked_keeps hend hshows hlow hlt hfuel hintact hkept
          rw [whileBelow_step hlt hfilled] at hok
          refine ih (by omega) hqle (by omega) hstays hshown hvalues (fun result => ?_) hok
          have hnot := hlost result
          rwa [drainAll_step Wire.keptField_shrinks hne hkept] at hnot
    · rw [window_of_le ctx.memory (by omega)] at hlost
      exact absurd (drainAll_nil _) (hlost _)

end

section

variable {wire : WireContext} {schema : CompiledSchema} {depth : Nat} {buffer : Buffer} {fuel : Nat}
  (hfuel : buffer.bytes.length ≤ fuel) (start : HashTable)

include hfuel

/-- **Kept.** If the stopped decoder gets through, everything is still there at the end. -/
theorem decodeMessageTracked_kept {result : Zval}
    (hkept : Wire.keptMessage wire depth schema buffer.bytes (.array start) = .ok result) :
    ∃ entries, result = .array entries ∧
      decodeMessageTracked ⟨wire, buffer.memory, fuel⟩ (depth + 1) buffer.base buffer.stop schema
        (.ofEntries start) = .ok (buffer.stop, .ofEntries entries) := by
  have hbudget := buffer.left_le hfuel le_rfl
  rw [← buffer.window_eq] at hkept
  obtain ⟨filled, entries, hrun, hintact, rfl, hshows⟩ :=
    decodeLoopTracked_keeps ⟨wire, buffer.memory, fuel⟩ buffer.stop_high buffer.low
      buffer.base_le_stop hbudget (Filling.intact_ofEntries start) (Filling.ofEntries_shows start)
      hbudget hkept
  exact ⟨entries, rfl, by rw [decodeMessageTracked, hrun, Filling.eq_ofEntries hintact hshows]⟩

/-- **Lost.** If only the decoder on values gets through, something dangles at the end. -/
theorem decodeMessageTracked_lost (hreading : wire.reading = .asWritten)
    (hformed : schema.WellFormed wire.registry) {result : Zval}
    (hvalues : Wire.message wire (depth + 1) schema buffer.bytes (.array start) = .ok result)
    (hlost : ∀ result, Wire.keptMessage wire depth schema buffer.bytes (.array start) ≠ .ok result)
    {last : Nat × Filling}
    (hok : decodeMessageTracked ⟨wire, buffer.memory, fuel⟩ (depth + 1) buffer.base buffer.stop
      schema (.ofEntries start) = .ok last) : last.2.Dangles := by
  rw [← buffer.window_eq] at hvalues hlost
  exact decodeLoopTracked_loses ⟨wire, buffer.memory, fuel⟩ buffer.stop_high buffer.low
    buffer.base_le_stop (buffer.left_le hfuel le_rfl) (Filling.intact_ofEntries start)
    (Filling.ofEntries_shows start) hreading hformed hvalues hlost hok

end

/-! ### The bytes of a message -/

/-- A list is sent item by item, and no list is there to take the items. -/
def makesOwnList (data : Zval) (entries : HashTable) (field : FieldDef) : Bool :=
  field.flags.repeated && !field.flags.packed && isGiven data field &&
    (entries.lookup (.str field.nameInPhp)).isNone

/-- What a field of the message does to an array, for the decoder that is stopped where a list
    would be given back. -/
def keptArrive (host : Host) (registry : Registry) (data : Zval) (entries : HashTable)
    (field : FieldDef) : Wire.Answer HashTable :=
  if makesOwnList data entries field then .error .overrun
  else Wire.lift (arrive false host registry data entries field)

/-- The stopped decoder stops at an occurrence of the field. -/
def stopsAt (field : FieldDef) (entries : HashTable) : Bool :=
  Wire.layout field.type = some .delimited ||
    field.flags.repeated && !field.flags.packed && (entries.lookup (.str field.nameInPhp)).isNone

/-- What an item of a field does, for the stopped decoder. -/
def keptItem (host : Host) (field : FieldDef) (entries : HashTable) (item : Zval) :
    Wire.Answer HashTable :=
  if stopsAt field entries then .error .overrun
  else Wire.lift (arriveItem false host field entries item)

section

variable (ctx : WireContext) (nested : Wire.MessageReader) {schema : CompiledSchema}
  {registry : Registry} {field : FieldDef} (hfield : field.Known registry schema)

include hfield

/-- A key that the encoder has written. -/
theorem keptField_written (payload : Bytes) (entries : HashTable) :
    Wire.keptField ctx nested schema (encodeVarint (writtenKey field) ++ payload)
        (.array entries) =
      if stopsAt field entries then .error .overrun
      else Wire.field ctx nested schema (encodeVarint (writtenKey field) ++ payload)
        (.array entries) := by
  obtain ⟨hkeyTag, hkeyWire, hzero⟩ := read_writtenKey hfield.typed hfield.small
  have hmakes : Wire.makesList schema (encodeVarint (writtenKey field) ++ payload)
      (.array entries) = (field.flags.repeated && !field.flags.packed &&
        (entries.lookup (.str field.nameInPhp)).isNone) := by
    simp only [Wire.makesList, varint_encodeVarint, startsList, hkeyTag, hfield.found, hkeyWire,
      decide_eq_true hzero]
    cases hpacked : field.flags.packed with
    | true => simp [writtenWireType, hpacked]
    | false => rw [Bool.true_and, Bool.false_and]
  have hpointer : Wire.readsPointer schema (encodeVarint (writtenKey field) ++ payload) =
      decide (Wire.layout field.type = some .delimited) := by
    simp only [Wire.readsPointer, varint_encodeVarint, hkeyTag, hfield.found,
      decide_eq_true hzero, Bool.true_and]
  rw [Wire.keptField, hmakes, hpointer, Bool.or_comm, stopsAt]

/-- The stopped decoder on the occurrences of a field. -/
theorem kept_occurs (hmode : ctx.decodeAsObject = false) (hreading : ctx.reading = .asWritten)
    {encodeMessage : MessageEncoder} :
    Occurs .overrun (Wire.keptField ctx nested schema) .array ctx.host registry encodeMessage
      (2 ^ 64) field (keptItem ctx.host field) := by
  have hcontainer : container ctx.decodeAsObject = .array := by
    rw [hmode]
    rfl
  refine ⟨hfield.typed, fun hunpacked value bytes hok hlength => ?_,
    fun hpacked items hitems hlength => ?_⟩
  · obtain ⟨payload, rfl, hstep⟩ := value_step ctx nested hfield hreading hunpacked hok hlength
    rw [hcontainer, hmode] at hstep
    apply Runs.of_step Wire.keptField_shrinks (by simp [encodeVarint_ne_nil])
    intro rest entries
    rw [List.append_assoc, keptField_written ctx nested hfield, ← List.append_assoc,
      hstep rest entries, keptItem]
    split <;> rfl
  · have hstep := block_step ctx nested hfield hpacked hitems hlength
    rw [hcontainer, hmode] at hstep
    have hgoes : ∀ entries, stopsAt field entries = false := by
      intro entries
      simp [stopsAt, hpacked, layout_of_isPackable (hfield.typed.packed hpacked).2]
    apply Runs.of_step Wire.keptField_shrinks (by simp [encodeVarint_ne_nil])
    intro rest entries
    have hitem : keptItem ctx.host field = fun entries item =>
        Wire.lift (arriveItem false ctx.host field entries item) := by
      funext entries item
      rw [keptItem, hgoes, if_neg Bool.false_ne_true]
    rw [List.append_assoc, keptField_written ctx nested hfield, hgoes, if_neg Bool.false_ne_true,
      ← List.append_assoc, hstep rest entries, hitem, Wire.lift_foldlM]

end

/-- Once an item has passed, the stopped decoder does not stop at the others. -/
theorem foldlM_keptItem {field : FieldDef} {entries : HashTable}
    (hgoes : stopsAt field entries = false) (host : Host) (items : List Zval) :
    items.foldlM (keptItem host field) entries =
      Wire.lift (items.foldlM (arriveItem false host field) entries) := by
  induction items generalizing entries with
  | nil => rfl
  | cons item rest ih =>
    rw [List.foldlM_cons, List.foldlM_cons, keptItem, hgoes, if_neg Bool.false_ne_true,
      Wire.lift_bind]
    rcases hitem : arriveItem false host field entries item with fault | next
    · rfl
    · refine ih ?_
      simp only [stopsAt, Bool.or_eq_false_iff, decide_eq_false_iff_not, Bool.and_eq_false_iff,
        Option.isNone_eq_false_iff] at hgoes ⊢
      refine ⟨hgoes.1, hgoes.2.imp_right fun hthere => ?_⟩
      rw [arriveItem, rejection_array hgoes.1] at hitem
      exact (isSome_lookup_foldlM hitem _).mpr (.inl hthere)

/-- One field of a message, for the stopped decoder. -/
theorem keptArrive_eq {host : Host} {registry : Registry} {encodeMessage : MessageEncoder}
    {field : FieldDef} {data : Zval} {bytes : Bytes}
    (hok : encodeFieldInternal host registry encodeMessage field
      (readMember data field.nameInPhp) = .ok bytes)
    (hfree : isGiven data field = true → isPackable field.type = true) (entries : HashTable) :
    (sentItems registry field (readMember data field.nameInPhp)).foldlM (keptItem host field)
      entries = keptArrive host registry data entries field := by
  have hgiven := arrivingItems_eq_nil_iff hok
  rw [arrivingItems, List.map_eq_nil_iff] at hgiven
  rw [keptArrive, makesOwnList, arrive_eq]
  rcases hitems : sentItems registry field (readMember data field.nameInPhp) with _ | ⟨item, rest⟩
  · rw [hgiven.mp hitems, Bool.and_false, Bool.false_and]
    rfl
  · have hsent : isGiven data field = true :=
      Bool.eq_true_of_not_eq_false fun hnot => by simp [hgiven.mpr hnot] at hitems
    have hstops : stopsAt field entries = (field.flags.repeated && !field.flags.packed &&
        (entries.lookup (.str field.nameInPhp)).isNone) := by
      rw [stopsAt, decide_eq_false (layout_of_isPackable (hfree hsent)), Bool.false_or]
    rw [hsent, Bool.and_true, ← hstops]
    cases hgoes : stopsAt field entries with
    | true =>
      rw [List.foldlM_cons, keptItem, hgoes]
      rfl
    | false => rw [foldlM_keptItem hgoes, if_neg Bool.false_ne_true]

/-! ### Messages whose lists are kept -/

/-- Of each list that is sent item by item, something is there already: another field of the
    same name, cut at a NUL byte, has made the list. -/
def ListsKept (schema : CompiledSchema) (data : Zval) : Prop :=
  ∀ field ∈ schema.orderedFields, field.flags.repeated = true → field.flags.packed = false →
    isGiven data field = true → ∃ earlier ∈ schema.orderedFields,
      earlier.tag.toNat < field.tag.toNat ∧ earlier.nameInPhp = field.nameInPhp ∧
        earlier.flags.repeated = true

section

variable {host : Host} {registry : Registry} {encodeMessage : MessageEncoder} {data : Zval}
  {fields : List FieldDef}

theorem arrive_arrived {before : List FieldDef} {field : FieldDef}
    (haccepted : Accepted host registry encodeMessage data (before ++ [field]))
    (hknown : ∀ other ∈ before ++ [field], other.type ≠ .unknown)
    (hfree : ∀ other ∈ before ++ [field], isGiven data other = true →
      other.rejection false = none) :
    arrive false host registry data (arrived false host registry data before) field =
      .ok (arrived false host registry data (before ++ [field])) := by
  have hsub : ∀ other ∈ before, other ∈ before ++ [field] := fun other hother =>
    List.mem_append_left _ hother
  have hall := foldlM_arrive_ok haccepted hknown hfree
  rw [List.foldlM_append, foldlM_arrive_ok (fun other hother => haccepted other (hsub other hother))
    (fun other hother => hknown other (hsub other hother))
    fun other hother => hfree other (hsub other hother)] at hall
  simp only [List.foldlM_cons, List.foldlM_nil, bind_pure] at hall
  exact hall

/-- The stopped decoder gets through exactly if each list that is sent item by item finds
    something under its name. -/
theorem foldlM_keptArrive_iff (haccepted : Accepted host registry encodeMessage data fields)
    (hknown : ∀ field ∈ fields, field.type ≠ .unknown)
    (hfree : ∀ field ∈ fields, isGiven data field = true → field.rejection false = none) :
    (∃ entries, fields.foldlM (keptArrive host registry data) [] = .ok entries) ↔
      ∀ before field after, fields = before ++ field :: after →
        makesOwnList data (arrived false host registry data before) field = false := by
  suffices haux : ∀ rest before, fields = before ++ rest →
      ((∃ entries, rest.foldlM (keptArrive host registry data)
          (arrived false host registry data before) = .ok entries) ↔
        ∀ middle field after, rest = middle ++ field :: after →
          makesOwnList data (arrived false host registry data (before ++ middle)) field = false)
    from haux fields [] rfl
  intro rest
  induction rest with
  | nil =>
    intro before _
    refine iff_of_true ⟨_, rfl⟩ ?_
    intro middle field after hsplit
    simp at hsplit
  | cons field rest ih =>
    intro before hfields
    have hnext : fields = (before ++ [field]) ++ rest := by rw [hfields]; simp
    have hsub : ∀ other ∈ before ++ [field], other ∈ fields := by
      rw [hnext]
      exact fun other hother => List.mem_append_left _ hother
    have hhere := arrive_arrived (fun other hother => haccepted other (hsub other hother))
      (fun other hother => hknown other (hsub other hother))
      fun other hother => hfree other (hsub other hother)
    rw [List.foldlM_cons]
    cases hmakes : makesOwnList data (arrived false host registry data before) field with
    | true =>
      rw [keptArrive, if_pos hmakes]
      refine iff_of_false (fun ⟨_, hok⟩ => ?_) fun hall => ?_
      · cases hok
      · have hnot := hall [] field rest rfl
        rw [List.append_nil, hmakes] at hnot
        cases hnot
    | false =>
      rw [keptArrive, if_neg (by simp [hmakes]), hhere]
      refine (ih (before ++ [field]) hnext).trans ⟨fun hall => ?_, fun hall => ?_⟩
      · intro middle other after hsplit
        cases middle with
        | nil =>
          cases hsplit
          rw [List.append_nil]
          exact hmakes
        | cons first middle =>
          cases hsplit
          have hrest := hall middle other after rfl
          rwa [List.append_assoc] at hrest
      · intro middle other after hsplit
        have hrest := hall (field :: middle) other after (by rw [hsplit]; rfl)
        rwa [List.append_assoc]

/-- A list that is sent item by item finds something under its name exactly if a field with a
    smaller tag has made the list. -/
theorem listsKept_iff {schema : CompiledSchema} (hformed : schema.WellFormed registry)
    (haccepted : Accepted host registry encodeMessage data schema.orderedFields)
    (hfree : NothingRejected false schema data) :
    ListsKept schema data ↔ ∀ before field after, schema.orderedFields = before ++ field :: after →
      makesOwnList data (arrived false host registry data before) field = false := by
  have hpackable := hfree.isPackable hformed
  constructor
  · intro hkept before field after hsplit
    have hsorted := hformed.sorted
    rw [hsplit] at hsorted haccepted
    have haccepted : Accepted host registry encodeMessage data before := fun other hother =>
      haccepted other (List.mem_append_left _ hother)
    by_contra hmakes
    simp only [makesOwnList, Bool.not_eq_false, Bool.and_eq_true, Bool.not_eq_true',
      Option.isNone_iff_eq_none] at hmakes
    obtain ⟨⟨⟨hrepeated, hunpacked⟩, hgiven⟩, habsent⟩ := hmakes
    obtain ⟨earlier, hearlier, hless, hname, hlist⟩ := hkept field
      (by rw [hsplit]; exact List.mem_append_right _ List.mem_cons_self) hrepeated hunpacked hgiven
    rw [hsplit] at hearlier
    -- the fields are sorted by their tags
    have hbefore : earlier ∈ before := by
      rcases List.mem_append.mp hearlier with hbefore | hrest
      · exact hbefore
      · have hafter := (List.pairwise_cons.mp (List.pairwise_append.mp hsorted).2.1).1
        rcases List.mem_cons.mp hrest with rfl | hlater
        · omega
        · have hmore := hafter earlier hlater
          omega
    have hsome : ((arrived false host registry data before).lookup
        (.str field.nameInPhp)).isSome = true := (isSome_arrived haccepted _).mpr
      ⟨earlier, hbefore, by rwa [isGiven_congr hname (hlist.trans hrepeated.symm)],
        by rw [FieldDef.entryKey, if_pos hlist, hname]⟩
    rw [habsent] at hsome
    cases hsome
  · intro hall field hfield hrepeated hunpacked hgiven
    obtain ⟨before, after, hsplit⟩ := List.append_of_mem hfield
    have hmakes := hall before field after hsplit
    have hsub : ∀ other ∈ before, other ∈ schema.orderedFields := by
      rw [hsplit]
      exact fun other hother => List.mem_append_left _ hother
    simp only [makesOwnList, hrepeated, hunpacked, hgiven, Bool.not_false, Bool.true_and,
      Option.isNone_eq_false_iff] at hmakes
    obtain ⟨earlier, hearlier, hsent, hkey⟩ :=
      (isSome_arrived (fun other hother => haccepted other (hsub other hother)) _).mp hmakes
    have hname := FieldDef.name_of_entryKey hkey
    have hsorted := hformed.sorted
    rw [hsplit] at hsorted
    refine ⟨earlier, hsub earlier hearlier, ?_, hname, ?_⟩
    · exact (List.pairwise_append.mp hsorted).2.2 earlier hearlier field List.mem_cons_self
    · exact (repeated_eq_of_name haccepted hpackable (hsub earlier hearlier) hfield hname hsent
        hgiven).trans hrepeated

end

section

variable {host : Host} {registry : Registry} {schemaName : Bytes} {schema : CompiledSchema}
  {data : Zval} {bytes : Bytes}

/-- The stopped decoder gets through an encoded message exactly if the lists are kept. -/
theorem keptMessage_encoded_iff {ok : Bytes → Prop} (hreach : Reachable ok registry)
    (hfound : registry.Has schemaName schema) (htags : schema.SmallTags)
    (hok : quicproIibinEncode host registry schemaName data = .ok bytes)
    (hlength : bytes.length < 2 ^ 64) (hfree : NothingRejected false schema data) (depth : Nat) :
    (∃ result, Wire.keptMessage ⟨host, registry, .asWritten, false⟩ depth schema bytes (.array []) =
      .ok result) ↔ ListsKept schema data := by
  have hformed := hreach.layered.wellFormed hfound
  obtain ⟨inner, -, -, hfields⟩ := quicproIibinEncode_ok hfound hok
  have haccepted := encodeFields_ok.mp ⟨bytes, hfields⟩
  have hruns := encodeFields_runs (fun field hfield => kept_occurs
    ⟨host, registry, .asWritten, false⟩ (Wire.message ⟨host, registry, .asWritten, false⟩ depth)
    ⟨hformed.fields field hfield, htags field hfield,
      (hformed.byTag field.tag field).mpr ⟨hfield, rfl⟩⟩ rfl rfl) hfields hlength
  have hdrain := hruns.drainAll_eq []
  have hfold : schema.orderedFields.foldlM (fun entries field =>
      (sentItems registry field (readMember data field.nameInPhp)).foldlM (keptItem host field)
        entries) [] = schema.orderedFields.foldlM (keptArrive host registry data) [] := by
    refine (foldlM_congr (fun _ _ => True) (fun before field after entries hsplit _ => ?_)
      trivial).1
    have hfield : field ∈ schema.orderedFields := by simp [hsplit]
    obtain ⟨_, hwritten⟩ := haccepted field hfield
    exact ⟨keptArrive_eq hwritten (hfree.isPackable hformed field hfield) entries,
      fun _ _ => trivial⟩
  rw [hfold] at hdrain
  rw [listsKept_iff hformed haccepted hfree, ← foldlM_keptArrive_iff haccepted
    (fun field hfield => (hformed.fields field hfield).known) hfree, Wire.keptMessage, hdrain]
  rcases schema.orderedFields.foldlM (keptArrive host registry data) [] with err | entries
  · exact iff_of_false (fun ⟨_, hok⟩ => by cases hok) fun ⟨_, hok⟩ => by cases hok
  · exact iff_of_true ⟨_, rfl⟩ ⟨_, rfl⟩

/-- **Encoded messages and lifetimes.** What `quicpro_iibin_decode` makes of an encoded message
    is there as a whole exactly if the decoder on values accepts the bytes and, for an array,
    the lists are kept. -/
theorem decodeTracked_encoded_iff {ok : Bytes → Prop} (hreach : Reachable ok registry)
    (hfound : registry.Has schemaName schema) (htags : schema.SmallTags)
    (hok : quicproIibinEncode host registry schemaName data = .ok bytes) {buffer : Buffer}
    (hbytes : buffer.bytes = bytes) {fuel : Nat} (hfuel : bytes.length ≤ fuel) (asObject : Bool)
    (result : Zval) :
    quicproIibinDecodeTracked ⟨host, registry, .asWritten, asObject⟩ fuel schemaName buffer =
        .ok (.live result, none) ↔
      quicproIibinDecode ⟨host, registry, .asWritten, asObject⟩ fuel schemaName buffer =
        .ok (result, none) ∧ (asObject = false → ListsKept schema data) := by
  cases asObject with
  | true =>
    rw [quicproIibinDecodeTracked_quiet hfound (.inl rfl), intact_eq_ok]
    exact ⟨fun hdecode => ⟨hdecode, Bool.noConfusion⟩, And.left⟩
  | false =>
    subst hbytes
    have hhigh := buffer.high
    have hformed := hreach.layered.wellFormed hfound
    obtain ⟨inner, hdepth, -⟩ := quicproIibinEncode_ok hfound hok
    have hlength : buffer.bytes.length < 2 ^ 64 := by omega
    -- if the values come through, no field is rejected
    have hfree : quicproIibinDecode ⟨host, registry, .asWritten, false⟩ fuel schemaName buffer =
        .ok (result, none) → NothingRejected false schema data := by
      intro hdecode
      rcases quicproIibinDecode_outcome hreach hfound htags hok rfl hfuel false with
        ⟨-, _, -, _, -, herror⟩ | ⟨-, -, _, herror⟩ | ⟨hfree, -⟩
      · cases herror.symm.trans hdecode
      · cases herror.symm.trans hdecode
      · exact hfree
    constructor
    · intro hlive
      have hdecode := quicproIibinDecode_of_live hlive
      refine ⟨hdecode, fun _ => ?_⟩
      have hiff := keptMessage_encoded_iff hreach hfound htags hok hlength (hfree hdecode) inner
      by_contra hnot
      have hmeaning := message_own hreach hfound htags hok hlength false
      obtain ⟨depth, haccepted⟩ := quicproIibinEncode_accepted hfound hok
      rw [foldlM_arrive_ok haccepted (fun field hfield => (hformed.fields field hfield).known)
        (hfree hdecode), hdepth] at hmeaning
      refine quicproIibinDecodeTracked_dangling hfound (fun q filled hrun => ?_) result none hlive
      rw [hdepth] at hrun
      exact decodeMessageTracked_lost hfuel [] rfl hformed hmeaning
        (fun kept hkept => hnot (hiff.mp ⟨kept, hkept⟩)) hrun
    · rintro ⟨hdecode, hkept⟩
      obtain ⟨kept, hthrough⟩ := (keptMessage_encoded_iff hreach hfound htags hok hlength
        (hfree hdecode) inner).mpr (hkept rfl)
      obtain ⟨entries, -, hrun⟩ := decodeMessageTracked_kept hfuel [] hthrough
      rw [quicproIibinDecodeTracked_of_calm hfound, intact_eq_ok]
      · exact hdecode
      · rw [hdepth]
        refine (congrArg (Calm _) hrun).mpr ?_
        exact Filling.intact_ofEntries entries

end

end QuicproAsync.Iibin

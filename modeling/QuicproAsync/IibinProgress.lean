import QuicproAsync.IibinKeys

/-!
# Progress of the decoding loop

Each iteration of `decode_message_internal` moves the read position forward and stays
inside the input, as long as no length taken from the input carries the position past
the end of the address space. The bound test of `skip_field` adds the length to the
pointer before it compares, so a length close to 2^64 leads back into the input, or to
the very start of the iteration.
-/

namespace QuicproAsync.Iibin

open Php Fallible ScanLoop

variable {memory : Memory} {ptr bufEnd q : Nat}

/-- Whether an iteration that has read this wire type and found this field goes on to read
    a length: of an unknown field to skip, of a packed block, of a string or message. -/
def carriesLength (found : Option FieldDef) (wireType : BitVec 32) : Bool :=
  match found with
  | none => wireType = wiretypeLengthDelim
  | some field =>
    (field.flags.packed && wireType = wiretypeLengthDelim) ||
      (Wire.layout field.type = some .delimited &&
        (wireType = field.wireType || field.flags.packed))

/-- The length that the iteration starting at `ptr` reads, with the position behind it. -/
def embeddedLength (memory : Memory) (schema : CompiledSchema) (bufEnd ptr : Nat) :
    Option (Nat × Nat) :=
  match decodeVarint memory ptr bufEnd with
  | none => none
  | some (key, ptr) =>
    if keyTag key = 0 then none
    else if carriesLength (schema.fieldsByTag.lookup (keyTag key)) (keyWireType key) then
      match decodeVarint memory ptr bufEnd with
      | none => none
      | some (len, ptr) => some (ptr, len.toNat)
    else none

/-! ### Progress of the functions of one iteration -/

theorem ReadAgrees.advances {value : α} {listRead : Option (α × Bytes)}
    (hagrees : ReadAgrees memory ptr bufEnd listRead (some (value, q))) : ptr < q ∧ q ≤ bufEnd := by
  rcases listRead with _ | ⟨listValue, rest⟩
  · cases hagrees
  · obtain ⟨q', hlt, hle, -, hread⟩ := hagrees
    cases hread
    exact ⟨hlt, hle⟩

theorem decodeVarint_advances {value : BitVec 64} (hend : bufEnd + 8 < 2 ^ 64)
    (hread : decodeVarint memory ptr bufEnd = some (value, q)) :
    ptr < q ∧ q ≤ bufEnd := by
  have hagrees := decodeVarint_agrees memory (show bufEnd < 2 ^ 64 by omega) ptr
  rw [hread] at hagrees
  exact hagrees.advances

/-- The position after a step lies behind the one before and inside the input; the budget
    of iterations is not used up. -/
abbrev Advances (ptr bufEnd : Nat) (result : Except Fault (Nat × Zval)) : Prop :=
  Ends (fun fault => fault ≠ .fuel) (fun next => ptr < next.1 ∧ next.1 ≤ bufEnd) result

theorem readOrFail_advances {listRead : Option (α × Bytes)} {read : Option (α × Nat)}
    (hagrees : ReadAgrees memory ptr bufEnd listRead read) (convert : α → Zval) :
    Advances ptr bufEnd (readOrFail read convert) := by
  rcases read with _ | ⟨value, q⟩
  · exact Fault.noConfusion
  · exact hagrees.advances

theorem OnlyConfusion.ne_fuel {result : Except Fault α} (hends : OnlyConfusion result) :
    Ends (fun fault => fault ≠ .fuel) (fun _ => True) result := by
  apply hends.weaken
  rintro _ rfl
  exact Fault.noConfusion

/-- A length read at `ptr` does not lead past the end of the address space. -/
def LengthFits (memory : Memory) (ptr bufEnd : Nat) : Prop :=
  ∀ len q, decodeVarint memory ptr bufEnd = some (len, q) → q + len.toNat < 2 ^ 64

section

variable {ctx : DecodeContext} {decodeMessage : MessageDecoder} {field : FieldDef}

theorem skipField_advances (hle : ptr ≤ bufEnd) (hend : bufEnd + 8 < 2 ^ 64)
    {wireType : BitVec 32}
    (hfits : wireType = wiretypeLengthDelim → LengthFits ctx.memory ptr bufEnd)
    (hskip : skipField ctx ptr bufEnd wireType = some q) : ptr < q ∧ q ≤ bufEnd := by
  have hfixed : ∀ count, 0 < count → count ≤ 8 →
      (if bufEnd < ptrAdd ptr count then none else some (ptrAdd ptr count)) = some q →
        ptr < q ∧ q ≤ bufEnd := by
    intro count hpos hcount hskip
    rw [ptrAdd_of_lt (by omega)] at hskip
    split at hskip
    · cases hskip
    · cases hskip
      constructor <;> omega
  unfold skipField at hskip
  split at hskip
  · split at hskip
    · cases hskip
    · rename_i hread
      cases hskip
      exact decodeVarint_advances hend hread
  · split at hskip
    · exact hfixed 8 (by decide) (by decide) hskip
    · split at hskip
      · rename_i hdelimited
        split at hskip
        · cases hskip
        · rename_i len after hread
          have hadvances := decodeVarint_advances hend hread
          rw [ptrAdd_of_lt (hfits hdelimited len after hread)] at hskip
          split at hskip
          · cases hskip
          · cases hskip
            constructor <;> omega
      · split at hskip
        · exact hfixed 4 (by decide) (by decide) hskip
        · cases hskip

/-- As written, the bound test of strings and messages fails unless the sum wraps. -/
theorem lengthLimit_lt (hreading : ctx.reading = .asWritten) {len : Nat} (hlow : 256 ≤ q)
    (hnowrap : q + len < 2 ^ 64) : lengthLimit ctx bufEnd < ptrAdd q len := by
  have hbyte := (ctx.memory bufEnd).isLt
  rw [ptrAdd_of_lt hnowrap, lengthLimit, hreading]
  simp only
  omega

theorem readBlock_advances (found : Nat → BitVec 64 → Except Fault (Nat × Zval))
    (hreading : ctx.reading = .asWritten) (hlow : 256 ≤ ptr) (hend : bufEnd + 8 < 2 ^ 64)
    (hfits : LengthFits ctx.memory ptr bufEnd) :
    Advances ptr bufEnd (readBlock ctx found ptr bufEnd) := by
  unfold readBlock
  split
  · exact Fault.noConfusion
  · rename_i len start hread
    have hadvances := decodeVarint_advances hend hread
    rw [if_pos (lengthLimit_lt hreading (by omega) (hfits len start hread))]
    exact Fault.noConfusion

theorem decodeValueToZval_advances (hreading : ctx.reading = .asWritten) (hlow : 256 ≤ ptr)
    (hle : ptr ≤ bufEnd) (hend : bufEnd + 8 < 2 ^ 64) {wireType : BitVec 32}
    (hfits : Wire.layout field.type = some .delimited →
      wireType = field.wireType ∨ field.flags.packed = true → LengthFits ctx.memory ptr bufEnd) :
    Advances ptr bufEnd (decodeValueToZval ctx decodeMessage ptr bufEnd field wireType) := by
  have hvarint := decodeVarint_agrees ctx.memory (show bufEnd < 2 ^ 64 by omega) ptr
  have hfixed32 := decodeFixed32_agrees ctx.memory hle hend
  have hfixed64 := decodeFixed64_agrees ctx.memory hle hend
  unfold decodeValueToZval
  split
  · exact Fault.noConfusion
  · rename_i hmatch
    have hwire : wireType = field.wireType ∨ field.flags.packed = true := by
      by_cases heq : wireType = field.wireType
      · exact .inl heq
      · right
        by_contra hpacked
        exact hmatch ⟨heq, by simpa using hpacked⟩
    cases htype : field.type <;> simp only
    case unknown => exact Fault.noConfusion
    case string => exact readBlock_advances _ hreading hlow hend (hfits (by rw [htype]; rfl) hwire)
    case bytes => exact readBlock_advances _ hreading hlow hend (hfits (by rw [htype]; rfl) hwire)
    case message => exact readBlock_advances _ hreading hlow hend (hfits (by rw [htype]; rfl) hwire)
    all_goals first
      | exact readOrFail_advances hvarint _
      | exact readOrFail_advances hfixed32 _
      | exact readOrFail_advances hfixed64 _

theorem layout_of_isPackable {type : FieldType} (hpackable : isPackable type = true) :
    Wire.layout type ≠ some .delimited := by
  revert hpackable
  cases type <;> decide

theorem decodePackedItem_advances (hreading : ctx.reading = .asWritten)
    (hpackable : isPackable field.type = true) (hlow : 256 ≤ ptr) (hle : ptr ≤ bufEnd)
    (hend : bufEnd + 8 < 2 ^ 64) (sub : Zval) :
    Advances ptr bufEnd (decodePackedItem ctx decodeMessage field bufEnd ptr sub) := by
  have hvalue : Advances ptr bufEnd
      (decodeValueToZval ctx decodeMessage ptr bufEnd field field.wireType) :=
    decodeValueToZval_advances hreading hlow hle hend fun hlayout _ =>
      absurd hlayout (layout_of_isPackable hpackable)
  refine Ends.bind hvalue fun read hread => ?_
  exact Ends.bind (OnlyConfusion.ne_fuel (addNextIndexZval_onlyConfusion sub read.2)) fun _ _ =>
    hread

theorem decodePackedBlock_advances (hreading : ctx.reading = .asWritten)
    (hpackable : isPackable field.type = true) (hlow : 256 ≤ ptr) (hend : bufEnd + 8 < 2 ^ 64)
    (hfuel : bufEnd - ptr ≤ ctx.fuel) (hfits : LengthFits ctx.memory ptr bufEnd)
    (returnZval : Zval) :
    Advances ptr bufEnd (decodePackedBlock ctx decodeMessage field ptr bufEnd returnZval) := by
  unfold decodePackedBlock
  split
  · exact Fault.noConfusion
  · rename_i len q hread
    have hadvances := decodeVarint_advances hend hread
    rw [ptrAdd_of_lt (hfits len q hread)]
    split
    · exact Fault.noConfusion
    · rename_i hbound
      refine Ends.bind (OnlyConfusion.ne_fuel (returnArray_onlyConfusion returnZval))
        fun entries _ => ?_
      -- the loop over the items is bounded by the end of the block
      have hloop : Ends (fun fault => fault ≠ .fuel)
          (fun last => last.1 = q + len.toNat ∧ q ≤ last.1)
          (whileBelow .fuel (q + len.toNat)
            (decodePackedItem ctx decodeMessage field (q + len.toNat)) ctx.fuel q
            (subArray entries field.nameInPhp)) := by
        refine whileBelow_of_progress (fun p _ => q ≤ p) (fun p sub hp hlt => ?_) ctx.fuel q _
          (Nat.le_refl q) (by omega) (by omega)
        refine (decodePackedItem_advances hreading hpackable (by omega) (by omega) (by omega)
          sub).mono fun next hnext => ⟨hnext.1, hnext.2, ?_⟩
        exact Nat.le_trans hp (Nat.le_of_lt hnext.1)
      refine Ends.bind hloop fun last hlast => ?_
      show ptr < last.1 ∧ last.1 ≤ bufEnd
      omega

/-- **One iteration.** It advances if the length it reads, if any, fits. -/
theorem decodeField_advances {schema : CompiledSchema} (hformed : schema.WellFormed ctx.registry)
    (hreading : ctx.reading = .asWritten) (hlow : 256 ≤ ptr) (hle : ptr ≤ bufEnd)
    (hend : bufEnd + 8 < 2 ^ 64) (hfuel : bufEnd - ptr ≤ ctx.fuel)
    (hfits : ∀ q len, embeddedLength ctx.memory schema bufEnd ptr = some (q, len) →
      q + len < 2 ^ 64) (returnZval : Zval) :
    Advances ptr bufEnd (decodeField ctx decodeMessage schema bufEnd ptr returnZval) := by
  unfold embeddedLength at hfits
  unfold decodeField
  rcases hkey : decodeVarint ctx.memory ptr bufEnd with _ | ⟨key, q⟩
  · exact Fault.noConfusion
  · have hadvances := decodeVarint_advances hend hkey
    simp only [hkey] at hfits ⊢
    split
    · exact hadvances
    · rename_i htag
      rw [if_neg htag] at hfits
      have hlength :
          carriesLength (schema.fieldsByTag.lookup (keyTag key)) (keyWireType key) = true →
          LengthFits ctx.memory q bufEnd := by
        intro hcarries len after hread
        rw [if_pos hcarries, hread] at hfits
        exact hfits after len.toNat rfl
      rcases hlookup : schema.fieldsByTag.lookup (keyTag key) with _ | field
      · rw [hlookup] at hlength
        rcases hskip : skipField ctx q bufEnd (keyWireType key) with _ | after
        · exact Fault.noConfusion
        · have hskipped := skipField_advances hadvances.2 hend
            (fun hdelimited => hlength (by simp [carriesLength, hdelimited])) hskip
          exact ⟨Nat.lt_trans hadvances.1 hskipped.1, hskipped.2⟩
      · rw [hlookup] at hlength
        obtain ⟨hfield, -⟩ := (hformed.byTag _ field).mp hlookup
        simp only
        split
        · rename_i hpacked
          refine (decodePackedBlock_advances hreading
            ((hformed.fields field hfield).packed hpacked.1).2 (by omega) hend (by omega)
            (hlength (by simp [carriesLength, hpacked])) returnZval).mono fun next hnext =>
              ⟨Nat.lt_trans hadvances.1 hnext.1, hnext.2⟩
        · have hvalue : Advances q bufEnd
              (decodeValueToZval ctx decodeMessage q bufEnd field (keyWireType key)) :=
            decodeValueToZval_advances hreading (by omega) hadvances.2 hend fun hlayout hwire =>
              hlength (by simp [carriesLength, hlayout, hwire])
          refine Ends.bind hvalue fun read hread => ?_
          exact Ends.bind (OnlyConfusion.ne_fuel (storeValue_onlyConfusion field read.2 returnZval))
            fun _ _ => ⟨Nat.lt_trans hadvances.1 hread.1, hread.2⟩

end

/-! ### Runs of the loop -/

/-- One iteration of the loop over a buffer, nested messages being decoded to `depth`. -/
def iteration (wire : WireContext) (fuel depth : Nat) (schema : CompiledSchema) (buffer : Buffer) :
    Nat → Zval → Except Fault (Nat × Zval) :=
  decodeField ⟨wire, buffer.memory, fuel⟩
    (decodeMessageInternal ⟨wire, buffer.memory, fuel⟩ depth) schema buffer.stop

section

variable {wire : WireContext} {fuel depth : Nat} {schema : CompiledSchema} {buffer : Buffer}
  {start : Zval}

/-- No iteration of the run reads a length that leads past the end of the address space. -/
def LengthsFit (wire : WireContext) (fuel depth : Nat) (schema : CompiledSchema) (buffer : Buffer)
    (start : Zval) : Prop :=
  ∀ state, Reaches buffer.stop (iteration wire fuel depth schema buffer)
    (buffer.base, start) state →
    ∀ q len, embeddedLength buffer.memory schema buffer.stop state.1 = some (q, len) →
      q + len < 2 ^ 64

theorem iteration_advances (hformed : schema.WellFormed wire.registry)
    (hreading : wire.reading = .asWritten) (hfuel : buffer.bytes.length ≤ fuel)
    (hfit : LengthsFit wire fuel depth schema buffer start) {state : Nat × Zval}
    (hreach : Reaches buffer.stop (iteration wire fuel depth schema buffer)
      (buffer.base, start) state) (hlow : buffer.base ≤ state.1) (hle : state.1 ≤ buffer.stop) :
    Advances state.1 buffer.stop (iteration wire fuel depth schema buffer state.1 state.2) := by
  exact decodeField_advances hformed hreading (buffer.low.trans hlow) hle buffer.stop_high
    (buffer.left_le hfuel hlow) (hfit state hreach) state.2

theorem reaches_inside (hformed : schema.WellFormed wire.registry)
    (hreading : wire.reading = .asWritten) (hfuel : buffer.bytes.length ≤ fuel)
    (hfit : LengthsFit wire fuel depth schema buffer start) {state : Nat × Zval}
    (hreach : Reaches buffer.stop (iteration wire fuel depth schema buffer) (buffer.base, start)
      state) : buffer.base ≤ state.1 ∧ state.1 ≤ buffer.stop := by
  induction hreach with
  | refl => exact ⟨le_rfl, buffer.base_le_stop⟩
  | @tail before after hbefore hturn ih =>
    have hadvances :=
      (iteration_advances hformed hreading hfuel hfit hbefore ih.1 ih.2).ok hturn.2
    exact ⟨Nat.le_trans ih.1 (Nat.le_of_lt hadvances.1), hadvances.2⟩

end

/-- **Progress.** In every run in which no length leads past the end of the address space,
    each iteration leaves the position strictly behind where it began and not behind the
    end of the input, and the run ends, at the end of the input or with a failure, after
    at most as many iterations of each loop as there are bytes. -/
theorem decoding_progress (wire : WireContext) (hreading : wire.reading = .asWritten)
    (hregistry : Reachable (fun _ => True) wire.registry) (schemaName : Bytes)
    (schema : CompiledSchema)
    (hschema : getCompiledIibinSchemaInternal wire.registry schemaName = some schema)
    (buffer : Buffer) (fuel depth : Nat) (hfuel : buffer.bytes.length ≤ fuel) (start : Zval)
    (hfit : LengthsFit wire fuel depth schema buffer start) :
    (∀ before after,
      Reaches buffer.stop (iteration wire fuel depth schema buffer) (buffer.base, start) before →
      Turn buffer.stop (iteration wire fuel depth schema buffer) before after →
        before.1 < after.1 ∧ after.1 ≤ buffer.stop) ∧
    decodeMessageInternal ⟨wire, buffer.memory, fuel⟩ (depth + 1) buffer.base buffer.stop schema
      start ≠ .error .fuel ∧
    ∀ ptr out, decodeMessageInternal ⟨wire, buffer.memory, fuel⟩ (depth + 1) buffer.base buffer.stop
      schema start = .ok (ptr, out) → ptr = buffer.stop := by
  have hformed := hregistry.layered.wellFormed hschema
  have hloop : Ends (fun fault => fault ≠ .fuel)
      (fun last => last.1 = buffer.stop ∧ Reaches buffer.stop
        (iteration wire fuel depth schema buffer) (buffer.base, start) (last.1, last.2))
      (decodeMessageInternal ⟨wire, buffer.memory, fuel⟩ (depth + 1) buffer.base buffer.stop schema
        start) := by
    refine whileBelow_of_progress (fun p out => Reaches buffer.stop
      (iteration wire fuel depth schema buffer) (buffer.base, start) (p, out))
      (fun p out hreach hlt => ?_) fuel buffer.base start Relation.ReflTransGen.refl
      buffer.base_le_stop (buffer.left_le hfuel le_rfl)
    have hinside := reaches_inside hformed hreading hfuel hfit hreach
    have hadvances := iteration_advances hformed hreading hfuel hfit hreach hinside.1 hinside.2
    exact hadvances.with_eq.mono fun next hnext =>
      ⟨hnext.1.1, hnext.1.2, hreach.tail ⟨hlt, hnext.2⟩⟩
  refine ⟨?_, ?_, ?_⟩
  · intro before after hreach hturn
    have hinside := reaches_inside hformed hreading hfuel hfit hreach
    exact (iteration_advances hformed hreading hfuel hfit hreach hinside.1 hinside.2).ok hturn.2
  · intro hexhausted
    exact hloop.error hexhausted rfl
  · intro ptr out hok
    exact (hloop.ok hok).1

/-- The registry that knows the schema `P` with the single field `x` of the given options. -/
def oneSchema (options : Zval) : Registry :=
  (Call.defineSchema (ascii "P") (oneField options)).apply Registry.init

theorem oneSchema_reachable (options : Zval) : Reachable NulFree (oneSchema options) := by
  refine Reachable.init.call _ ?_
  have hnames : ∀ name ∈ [ascii "P", ascii "x"], NulFree name := by decide
  exact hnames

/-- Decoding to arrays with the bound tests as they are written. -/
def arrayContext (host : Host) (registry : Registry) : WireContext :=
  ⟨host, registry, .asWritten, false⟩

/-- The field `x` of `P` and an unknown field of two bytes. -/
def skipBuffer : Buffer := .placed [0x08, 0x05, 0x12, 0x02, 0xFF, 0xFF] (by decide)

theorem decoding_progress_skip :
    ∃ schema, getCompiledIibinSchemaInternal (oneSchema (fieldOptions 1 "int32" [])) (ascii "P") =
        some schema ∧
      embeddedLength skipBuffer.memory schema skipBuffer.stop 4098 = some (4100, 2) ∧
      decodeMessageInternal ⟨arrayContext default (oneSchema (fieldOptions 1 "int32" [])),
        skipBuffer.memory, 6⟩ 1 4096 4102 schema (.array []) ≠ .error .fuel := by
  refine ⟨_, rfl, rfl, (decoding_progress (arrayContext default _) rfl
    ((oneSchema_reachable (fieldOptions 1 "int32" [])).weaken fun _ _ => trivial) (ascii "P") _ rfl
    skipBuffer 6 0 (by decide) (.array []) ?_).2.1⟩
  intro state hreach
  rcases hreach.cases_head with rfl | ⟨first, hfirst, hreach⟩
  · intro q len hlength
    cases hlength
  · cases hfirst.2
    rcases hreach.cases_head with rfl | ⟨second, hsecond, hreach⟩
    · intro q len hlength
      cases hlength
      decide
    · cases hsecond.2
      rcases hreach.cases_head with rfl | ⟨third, hthird, -⟩
      · intro q len hlength
        cases hlength
      · exact absurd hthird.1 (by decide)

/-- An unknown field whose length 2^64 - 11 leads from behind the eleven bytes back to
    the first of them. -/
def backBuffer : Buffer :=
  .placed [0x0A, 0xF5, 0xFF, 0xFF, 0xFF, 0xFF, 0xFF, 0xFF, 0xFF, 0xFF, 0x01] (by decide)

theorem decoding_runs_in_place :
    ∃ schema, getCompiledIibinSchemaInternal (oneSchema (fieldOptions 7 "int32" [])) (ascii "P") =
        some schema ∧
      Turn backBuffer.stop
        (iteration (arrayContext default (oneSchema (fieldOptions 7 "int32" []))) 11 0 schema
          backBuffer) (4096, .array []) (4096, .array []) ∧
      ∀ fuel, quicproIibinDecode (arrayContext default (oneSchema (fieldOptions 7 "int32" []))) fuel
        (ascii "P") backBuffer = .error .fuel := by
  obtain ⟨schema, hschema⟩ : ∃ schema, getCompiledIibinSchemaInternal
      (oneSchema (fieldOptions 7 "int32" [])) (ascii "P") = some schema := ⟨_, rfl⟩
  have hunknown : schema.fieldsByTag.lookup (keyTag 10) = none := by
    cases hschema
    rfl
  have hkey : decodeVarint backBuffer.memory 4096 backBuffer.stop = some (10, 4097) := rfl
  have hlength : decodeVarint backBuffer.memory 4097 backBuffer.stop =
      some (18446744073709551605, 4107) := rfl
  have hback : ptrAdd 4107 (18446744073709551605 : BitVec 64).toNat = 4096 := rfl
  have hstep : ∀ fuel, iteration (arrayContext default (oneSchema (fieldOptions 7 "int32" []))) fuel
      0 schema backBuffer 4096 (.array []) = .ok (4096, .array []) := by
    intro fuel
    simp only [iteration, decodeField, hkey, hunknown, if_neg (show keyTag 10 ≠ 0 by decide),
      skipField, if_neg (show keyWireType 10 ≠ wiretypeVarint by decide),
      if_neg (show keyWireType 10 ≠ wiretypeFixed64 by decide),
      if_pos (show keyWireType 10 = wiretypeLengthDelim by decide), hlength, hback,
      if_neg (show ¬ backBuffer.stop < 4096 by decide)]
  refine ⟨schema, hschema, ⟨by decide, hstep 11⟩, fun fuel => ?_⟩
  exact quicproIibinDecode_error hschema (whileBelow_of_fixed (by decide) (hstep fuel) fuel)

end QuicproAsync.Iibin

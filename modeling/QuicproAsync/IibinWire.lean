import QuicproAsync.IibinDecoding

/-!
# The meaning of a byte string

The decoder without a memory: it consumes the list of unread bytes. There are no
addresses, so nothing can wrap; a length that exceeds what is left is answered with
`overrun`. Everything the later modules say about decoded messages is proved for this
reading and carried over to the pointer version by `IibinWireRefinement`.
-/

namespace QuicproAsync.Iibin.Wire

open Php Fallible ScanLoop

abbrev Answer (α : Type) := Except (ScanError Fault) α

def lift (result : Except Fault α) : Answer α :=
  match result with
  | .ok value => .ok value
  | .error fault => .error (.fault fault)

theorem lift_bind (result : Except Fault α) (next : α → Except Fault β) :
    lift (result >>= next) = lift result >>= fun value => lift (next value) := by
  cases result <;> rfl

theorem lift_foldlM (items : List α) (step : β → α → Except Fault β) (start : β) :
    lift (items.foldlM step start) = items.foldlM (fun state item => lift (step state item)) start
      := by
  induction items generalizing start with
  | nil => rfl
  | cons item rest ih =>
    rw [List.foldlM_cons, lift_bind, List.foldlM_cons]
    exact congrArg _ (funext ih)

/-- The four shapes a value can have on the wire. -/
inductive Layout where
  | varint
  | fixed32
  | fixed64
  | delimited
deriving DecidableEq

def layout : FieldType → Option Layout
  | .int32 | .enum | .sint32 | .int64 | .sint64 | .uint32 | .uint64 | .bool => some .varint
  | .float | .fixed32 | .sfixed32 => some .fixed32
  | .double | .fixed64 | .sfixed64 => some .fixed64
  | .string | .bytes | .message => some .delimited
  | .unknown => none

/-! ### Primitives -/

def varintLoop : Nat → Bytes → Nat → BitVec 64 → Option (BitVec 64 × Bytes)
  | 0, _, _, _ => none
  | _ + 1, [], _, _ => none
  | iterations + 1, byte :: rest, shift, result =>
    let result := result ||| ((byte &&& 0x7F#8).setWidth 64 <<< shift)
    if byte &&& 0x80#8 = 0 then some (result, rest)
    else varintLoop iterations rest (shift + 7) result

def varint (bytes : Bytes) : Option (BitVec 64 × Bytes) := varintLoop 10 bytes 0 0

def fixed32 : Bytes → Option (BitVec 32 × Bytes)
  | b0 :: b1 :: b2 :: b3 :: rest => some (joinFixed32 b0 b1 b2 b3, rest)
  | _ => none

def fixed64 : Bytes → Option (BitVec 64 × Bytes)
  | b0 :: b1 :: b2 :: b3 :: b4 :: b5 :: b6 :: b7 :: rest =>
    some (joinFixed64 b0 b1 b2 b3 b4 b5 b6 b7, rest)
  | _ => none

def readOrFail (read : Option (α × Bytes)) (convert : α → Zval) : Answer (Bytes × Zval) :=
  match read with
  | none => .error (.fault .silent)
  | some (value, rest) => .ok (rest, convert value)

/-- A length-delimited block: its content and what follows. -/
def block (fault : Fault) (bytes : Bytes) : Answer (Bytes × Bytes) :=
  match varint bytes with
  | none => .error (.fault fault)
  | some (len, rest) =>
    if rest.length < len.toNat then .error .overrun
    else .ok (rest.take len.toNat, rest.drop len.toNat)

/-! ### Values, fields, messages -/

abbrev MessageReader := CompiledSchema → Bytes → Zval → Answer Zval

section

variable (ctx : WireContext)

def delimitedValue (nested : MessageReader) (field : FieldDef) (content : Bytes) : Answer Zval :=
  match ctx.reading with
  | .asWritten => .error (.fault .silent)
  | .againstBufEnd =>
    if field.type = .message then
      let schemaName := field.messageTypeNameIfNested.getD []
      match getCompiledIibinSchemaInternal ctx.registry schemaName with
      | none => .error (.fault (.exception (.decodeNestedNotDefined schemaName field.nameInPhp)))
      | some nestedSchema => nested nestedSchema content ctx.emptyResult
    else .ok (.string content)

def value (nested : MessageReader) (field : FieldDef) (wireType : BitVec 32) (bytes : Bytes) :
    Answer (Bytes × Zval) :=
  if wireType ≠ field.wireType ∧ field.flags.packed = false then
    .error (.fault (.exception
      (.wireTypeMismatch (ownerName field) field.nameInPhp field.tag field.wireType wireType)))
  else
    match layout field.type with
    | some .varint => readOrFail (varint bytes) (varintZval field.type)
    | some .fixed32 => readOrFail (fixed32 bytes) (fixed32Zval ctx.host field.type)
    | some .fixed64 => readOrFail (fixed64 bytes) (fixed64Zval field.type)
    | some .delimited => do
        let (content, rest) ← block .silent bytes
        let decoded ← delimitedValue ctx nested field content
        .ok (rest, decoded)
    | none => .error (.fault .silent)

def skip (fault : Fault) (wireType : BitVec 32) (bytes : Bytes) : Answer Bytes :=
  if wireType = wiretypeVarint then
    match varint bytes with
    | none => .error (.fault fault)
    | some (_, rest) => .ok rest
  else if wireType = wiretypeFixed64 then
    if bytes.length < 8 then .error (.fault fault) else .ok (bytes.drop 8)
  else if wireType = wiretypeLengthDelim then do
    let (_, rest) ← block fault bytes
    .ok rest
  else if wireType = wiretypeFixed32 then
    if bytes.length < 4 then .error (.fault fault) else .ok (bytes.drop 4)
  else .error (.fault fault)

def packedItem (nested : MessageReader) (field : FieldDef) (bytes : Bytes) (sub : Zval) :
    Answer (Bytes × Zval) := do
  let (rest, item) ← value ctx nested field field.wireType bytes
  let sub ← lift (addNextIndexZval sub item)
  .ok (rest, sub)

def packedBlock (nested : MessageReader) (field : FieldDef) (bytes : Bytes) (returnZval : Zval) :
    Answer (Bytes × Zval) := do
  let (content, rest) ← block .silent bytes
  let entries ← lift (returnArray returnZval)
  let sub ← drainAll .overrun (packedItem ctx nested field) content
    (subArray entries field.nameInPhp)
  .ok (rest, .array (OrderedMap.assign (.str field.nameInPhp) sub entries))

def singleField (nested : MessageReader) (field : FieldDef) (wireType : BitVec 32) (bytes : Bytes)
    (returnZval : Zval) : Answer (Bytes × Zval) := do
  let (rest, decoded) ← value ctx nested field wireType bytes
  let returnZval ← lift (storeValue field decoded returnZval)
  .ok (rest, returnZval)

/-- What follows a key that has been read. -/
def fieldBody (nested : MessageReader) (schema : CompiledSchema) (key : BitVec 64) (bytes : Bytes)
    (returnZval : Zval) : Answer (Bytes × Zval) :=
  if keyTag key = 0 then .ok (bytes, returnZval)
  else
    match schema.fieldsByTag.lookup (keyTag key) with
    | none => do
        let rest ← skip (.exception (.skipFailed (keyTag key) schema.schemaName))
          (keyWireType key) bytes
        .ok (rest, returnZval)
    | some field =>
      if field.flags.packed ∧ keyWireType key = wiretypeLengthDelim then
        packedBlock ctx nested field bytes returnZval
      else singleField ctx nested field (keyWireType key) bytes returnZval

def field (nested : MessageReader) (schema : CompiledSchema) (bytes : Bytes) (returnZval : Zval) :
    Answer (Bytes × Zval) :=
  match varint bytes with
  | none => .error (.fault (.exception (.malformedKey schema.schemaName)))
  | some (key, rest) => fieldBody ctx nested schema key rest returnZval

def message : (depth : Nat) → CompiledSchema → Bytes → Zval → Answer Zval
  | 0, _, _, _ => .error (.fault .depth)
  | depth + 1, schema, bytes, returnZval =>
    drainAll .overrun (field ctx (message depth) schema) bytes returnZval

end

/-! ### Consumption

A reader that answers has used up at least a given number of bytes and does not depend
on what follows the bytes it has used. -/

def Consumes (least : Nat) (reader : Bytes → Answer (Bytes × α)) : Prop :=
  ∀ ⦃bytes rest : Bytes⦄ ⦃result : α⦄, reader bytes = .ok (rest, result) →
    rest.length + least ≤ bytes.length ∧
      ∀ extra, reader (bytes ++ extra) = .ok (rest ++ extra, result)

variable {bytes rest : Bytes}

theorem varintLoop_consumes {iterations shift : Nat} {result value : BitVec 64}
    (hread : varintLoop iterations bytes shift result = some (value, rest)) :
    rest.length + 1 ≤ bytes.length ∧ ∀ extra,
      varintLoop iterations (bytes ++ extra) shift result = some (value, rest ++ extra) := by
  induction iterations generalizing bytes shift result with
  | zero => simp [varintLoop] at hread
  | succ iterations ih =>
    cases bytes with
    | nil => simp [varintLoop] at hread
    | cons byte tail =>
      simp only [varintLoop, List.cons_append] at hread ⊢
      split at hread
      · rename_i hlast
        cases hread
        exact ⟨by simp, fun extra => by rw [if_pos hlast]⟩
      · rename_i hmore
        obtain ⟨hless, htail⟩ := ih hread
        refine ⟨by simp only [List.length_cons]; omega, fun extra => ?_⟩
        rw [if_neg hmore]
        exact htail extra

theorem varint_consumes {value : BitVec 64} (hread : varint bytes = some (value, rest)) :
    rest.length + 1 ≤ bytes.length ∧
      ∀ extra, varint (bytes ++ extra) = some (value, rest ++ extra) :=
  varintLoop_consumes hread

theorem fixed32_consumes {value : BitVec 32} (hread : fixed32 bytes = some (value, rest)) :
    rest.length + 1 ≤ bytes.length ∧
      ∀ extra, fixed32 (bytes ++ extra) = some (value, rest ++ extra) := by
  match bytes, hread with
  | b0 :: b1 :: b2 :: b3 :: tail, hread =>
    simp only [fixed32, Option.some.injEq, Prod.mk.injEq] at hread
    obtain ⟨rfl, rfl⟩ := hread
    exact ⟨by simp only [List.length_cons]; omega, fun extra => rfl⟩

theorem fixed64_consumes {value : BitVec 64} (hread : fixed64 bytes = some (value, rest)) :
    rest.length + 1 ≤ bytes.length ∧
      ∀ extra, fixed64 (bytes ++ extra) = some (value, rest ++ extra) := by
  match bytes, hread with
  | b0 :: b1 :: b2 :: b3 :: b4 :: b5 :: b6 :: b7 :: tail, hread =>
    simp only [fixed64, Option.some.injEq, Prod.mk.injEq] at hread
    obtain ⟨rfl, rfl⟩ := hread
    exact ⟨by simp only [List.length_cons]; omega, fun extra => rfl⟩

theorem block_consumes (fault : Fault) {content : Bytes}
    (hread : block fault bytes = .ok (content, rest)) :
    rest.length + 1 ≤ bytes.length ∧
      ∀ extra, block fault (bytes ++ extra) = .ok (content, rest ++ extra) := by
  unfold block at hread ⊢
  rcases hlen : varint bytes with _ | ⟨len, after⟩
  · rw [hlen] at hread
    cases hread
  · obtain ⟨hless, happend⟩ := varint_consumes hlen
    simp only [hlen] at hread
    split at hread
    · cases hread
    · rename_i hfits
      cases hread
      refine ⟨by simp only [List.length_drop]; omega, fun extra => ?_⟩
      have hfits' : ¬ (after ++ extra).length < len.toNat := by
        simp only [List.length_append]
        omega
      simp only [happend extra, if_neg hfits']
      rw [List.take_append_of_le_length (by omega), List.drop_append_of_le_length (by omega)]

section

variable (ctx : WireContext) (nested : MessageReader)

theorem readOrFail_consumes {reader : Bytes → Option (α × Bytes)}
    (hreader : ∀ {bytes rest : Bytes} {value : α}, reader bytes = some (value, rest) →
      rest.length + 1 ≤ bytes.length ∧
        ∀ extra, reader (bytes ++ extra) = some (value, rest ++ extra))
    (convert : α → Zval) : Consumes 1 fun bytes => readOrFail (reader bytes) convert := by
  intro bytes rest result hread
  rcases hvalue : reader bytes with _ | ⟨value, after⟩ <;>
    simp only [hvalue, readOrFail] at hread <;> cases hread
  obtain ⟨hless, happend⟩ := hreader hvalue
  exact ⟨hless, fun extra => by simp only [happend extra, readOrFail]⟩

theorem value_consumes (field : FieldDef) (wireType : BitVec 32) :
    Consumes 1 (value ctx nested field wireType) := by
  intro bytes rest result hread
  unfold value at hread ⊢
  split at hread
  · cases hread
  · rename_i hmatch
    simp only [if_neg hmatch]
    split at hread
    · exact readOrFail_consumes varint_consumes _ hread
    · exact readOrFail_consumes fixed32_consumes _ hread
    · exact readOrFail_consumes fixed64_consumes _ hread
    · obtain ⟨⟨content, after⟩, hblock, hread⟩ := bind_eq_ok.mp hread
      obtain ⟨decoded, hdecoded, hread⟩ := bind_eq_ok.mp hread
      cases hread
      obtain ⟨hless, happend⟩ := block_consumes _ hblock
      refine ⟨hless, fun extra => ?_⟩
      refine bind_eq_ok.mpr ⟨_, happend extra, ?_⟩
      exact bind_eq_ok.mpr ⟨_, hdecoded, rfl⟩
    · cases hread

/-- Skipping a fixed number of bytes. -/
theorem drop_consumes {fault : Fault} {width : Nat} {bytes rest : Bytes} (hwidth : 0 < width)
    (hread : (if bytes.length < width then .error (.fault fault) else .ok (bytes.drop width) :
      Answer Bytes) = .ok rest) :
    rest.length + 1 ≤ bytes.length ∧ ∀ extra : Bytes,
      (if (bytes ++ extra).length < width then .error (.fault fault)
        else .ok ((bytes ++ extra).drop width) : Answer Bytes) = .ok (rest ++ extra) := by
  split at hread
  · cases hread
  · next hlong =>
      cases hread
      refine ⟨by rw [List.length_drop]; omega, fun extra => ?_⟩
      rw [if_neg (by rw [List.length_append]; omega), List.drop_append_of_le_length (by omega)]

theorem skip_consumes (fault : Fault) (wireType : BitVec 32) {bytes rest : Bytes}
    (hread : skip fault wireType bytes = .ok rest) :
    rest.length + 1 ≤ bytes.length ∧
      ∀ extra, skip fault wireType (bytes ++ extra) = .ok (rest ++ extra) := by
  unfold skip at hread ⊢
  split at hread
  · rename_i hvarint
    simp only [if_pos hvarint]
    rcases hvar : varint bytes with _ | ⟨u64, after⟩ <;> rw [hvar] at hread <;> cases hread
    obtain ⟨hless, happend⟩ := varint_consumes hvar
    exact ⟨hless, fun extra => by rw [happend extra]⟩
  · rename_i hvarint
    simp only [if_neg hvarint]
    split at hread
    · rename_i hfixed
      simp only [if_pos hfixed]
      exact drop_consumes (by decide) hread
    · rename_i hfixed
      simp only [if_neg hfixed]
      split at hread
      · rename_i hdelimited
        simp only [if_pos hdelimited]
        obtain ⟨⟨content, after⟩, hblock, hread⟩ := bind_eq_ok.mp hread
        cases hread
        obtain ⟨hless, happend⟩ := block_consumes _ hblock
        exact ⟨hless, fun extra => by rw [happend extra]; rfl⟩
      · rename_i hdelimited
        simp only [if_neg hdelimited]
        split at hread
        · rename_i hfixed
          simp only [if_pos hfixed]
          exact drop_consumes (by decide) hread
        · cases hread

theorem packedItem_shrinks (field : FieldDef) : Shrinks (packedItem ctx nested field) := by
  intro bytes sub rest sub' hread
  obtain ⟨⟨after, item⟩, hvalue, hread⟩ := bind_eq_ok.mp hread
  obtain ⟨pushed, hpushed, hread⟩ := bind_eq_ok.mp hread
  cases hread
  exact (value_consumes ctx nested field _ hvalue).1

theorem packedBlock_consumes (field : FieldDef) (returnZval : Zval) :
    Consumes 1 fun bytes => packedBlock ctx nested field bytes returnZval := by
  intro bytes rest result hread
  obtain ⟨⟨content, after⟩, hblock, hread⟩ := bind_eq_ok.mp hread
  obtain ⟨entries, hentries, hread⟩ := bind_eq_ok.mp hread
  obtain ⟨sub, hsub, hread⟩ := bind_eq_ok.mp hread
  cases hread
  obtain ⟨hless, happend⟩ := block_consumes _ hblock
  refine ⟨hless, fun extra => ?_⟩
  refine bind_eq_ok.mpr ⟨_, happend extra, ?_⟩
  refine bind_eq_ok.mpr ⟨_, hentries, ?_⟩
  exact bind_eq_ok.mpr ⟨_, hsub, rfl⟩

theorem singleField_consumes (field : FieldDef) (wireType : BitVec 32) (returnZval : Zval) :
    Consumes 1 fun bytes => singleField ctx nested field wireType bytes returnZval := by
  intro bytes rest result hread
  obtain ⟨⟨after, decoded⟩, hvalue, hread⟩ := bind_eq_ok.mp hread
  obtain ⟨stored, hstored, hread⟩ := bind_eq_ok.mp hread
  cases hread
  obtain ⟨hless, happend⟩ := value_consumes ctx nested field wireType hvalue
  refine ⟨hless, fun extra => ?_⟩
  refine bind_eq_ok.mpr ⟨_, happend extra, ?_⟩
  exact bind_eq_ok.mpr ⟨_, hstored, rfl⟩

theorem fieldBody_consumes (schema : CompiledSchema) (key : BitVec 64) (returnZval : Zval) :
    Consumes 0 fun bytes => fieldBody ctx nested schema key bytes returnZval := by
  intro bytes rest result hread
  simp only [fieldBody] at hread ⊢
  split at hread
  · rename_i hzero
    cases hread
    exact ⟨Nat.le_refl _, fun extra => by rw [if_pos hzero]⟩
  · rename_i hzero
    simp only [if_neg hzero]
    split at hread
    · obtain ⟨after, hskip, hread⟩ := bind_eq_ok.mp hread
      cases hread
      obtain ⟨hless, happend⟩ := skip_consumes _ _ hskip
      exact ⟨by omega, fun extra => by rw [happend extra]; rfl⟩
    · split at hread
      · rename_i hpacked
        obtain ⟨hless, happend⟩ := packedBlock_consumes ctx nested _ returnZval hread
        exact ⟨by omega, fun extra => by rw [if_pos hpacked]; exact happend extra⟩
      · rename_i hpacked
        obtain ⟨hless, happend⟩ := singleField_consumes ctx nested _ _ returnZval hread
        exact ⟨by omega, fun extra => by rw [if_neg hpacked]; exact happend extra⟩

theorem field_consumes (schema : CompiledSchema) (returnZval : Zval) :
    Consumes 1 fun bytes => field ctx nested schema bytes returnZval := by
  intro bytes rest result hread
  simp only [field] at hread ⊢
  rcases hkey : varint bytes with _ | ⟨key, after⟩
  · rw [hkey] at hread
    cases hread
  · rw [hkey] at hread
    obtain ⟨hkeyLess, hkeyAppend⟩ := varint_consumes hkey
    obtain ⟨hless, happend⟩ := fieldBody_consumes ctx nested schema key returnZval hread
    refine ⟨by omega, fun extra => ?_⟩
    rw [hkeyAppend extra]
    exact happend extra

theorem field_shrinks (schema : CompiledSchema) : Shrinks (field ctx nested schema) := by
  intro bytes returnZval rest result hread
  exact (field_consumes ctx nested schema returnZval hread).1

theorem field_local (schema : CompiledSchema) : Local (field ctx nested schema) := by
  intro bytes returnZval rest result extra hread
  exact (field_consumes ctx nested schema returnZval hread).2 extra

end

end QuicproAsync.Iibin.Wire

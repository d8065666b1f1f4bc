import QuicproAsync.IibinJs
import QuicproAsync.IibinReturn

/-!
# What the JavaScript decoder reads of the encoder's bytes

The readers of `iibin.js` on the bytes that `iibin_encoding.c` writes, first for varints
and fixed widths, then for the items of a field, for a field and for a message, with fields of
any type and messages nested to any depth. The reader may know fewer fields than the sender.

Every integer arrives as the number its bits make without a sign, except where ZigZag is used,
and so do the bits of a `float` or `double`. Strings pass through the `TextDecoder`, bytes arrive
as they are, and a nested message is what the nested call of `decode` makes of it.
-/

namespace QuicproAsync.Iibin.Js

open Php Fallible ScanLoop

variable {content payload bytes : Bytes} {registry : Registry} {host : Host}
  {mirror : FieldDef} {wireType : Nat} {key : BitVec 64} {value : Zval}
  {table : Schema} {field : Iibin.FieldDef} {encodeMessage : MessageEncoder}

/-! ### Numbers -/

theorem roundTo_of_lt {precision n : Nat} (hlt : n < 2 ^ precision) : roundTo precision n = n := by
  have hunit : n = 0 ∨ n.log2 + 1 - precision = 0 := by
    rcases Nat.eq_zero_or_pos n with hzero | hpos
    · exact .inl hzero
    · have hlog := (Nat.log2_lt hpos.ne').mpr hlt
      exact .inr (Nat.sub_eq_zero_of_le hlog)
  unfold roundTo
  rcases hunit with rfl | hunit
  · simp
  · simp [hunit, Nat.mod_one]

theorem toNumber_of_lt {n : Int} (hlt : n.natAbs < 2 ^ 53) : toNumber n = n := by
  rw [toNumber, roundTo_of_lt hlt, Int.sign_mul_natAbs]

theorem toNumber_nonneg (n : Nat) : 0 ≤ toNumber n := by
  unfold toNumber
  rcases Nat.eq_zero_or_pos n with rfl | hpos
  · simp
  · rw [Int.sign_natCast_of_ne_zero hpos.ne', Int.one_mul]
    exact Int.natCast_nonneg _

theorem zigzagDecode64_eq (n : Nat) :
    zigzagDecode64 n = if n % 2 = 0 then (n / 2 : Int) else -(n / 2 : Int) - 1 := by
  unfold zigzagDecode64
  rw [Nat.and_one_is_mod, Nat.shiftRight_eq_div_pow]
  rcases Nat.mod_two_eq_zero_or_one n with heven | hodd
  · have hzero : Int.xor (n / 2 ^ 1 : Nat) (-((0 : Nat) : Int)) = ((n / 2 ^ 1 ^^^ 0 : Nat) : Int) :=
      rfl
    rw [heven, if_pos rfl, hzero, Nat.xor_zero]
    simp
  · have hone : Int.xor (n / 2 ^ 1 : Nat) (-((1 : Nat) : Int)) =
        Int.negSucc (n / 2 ^ 1 ^^^ 0) := rfl
    rw [hodd, if_neg (by decide), hone, Nat.xor_zero, Int.negSucc_eq]
    simp only [Nat.pow_one, Int.natCast_ediv, Nat.cast_ofNat]
    omega

theorem zigzagDecode64_zigzag {w : Nat} (n : BitVec w) :
    zigzagDecode64 (n <<< 1 ^^^ n.sshiftRight (w - 1)).toNat = n.toInt := by
  have hcode := zigzag_toNat n
  rw [zigzagDecode64_eq]
  split at hcode <;> split <;> omega

/-! ### Varints and fixed widths -/

theorem low_or_high_nat (n shift : Nat) :
    ((n &&& 0x7F) <<< shift) ||| ((n >>> 7) <<< (shift + 7)) = n <<< shift := by
  apply Nat.eq_of_testBit_eq
  intro i
  have hmask : (0x7F : Nat) = 2 ^ 7 - 1 := rfl
  simp only [Nat.testBit_or, Nat.testBit_shiftLeft, Nat.testBit_and, Nat.testBit_shiftRight, hmask,
    Nat.testBit_two_pow_sub_one]
  rcases Nat.lt_or_ge i shift with hlow | hhigh
  · simp [Nat.not_le.mpr hlow, show ¬ shift + 7 ≤ i by omega]
  · rcases Nat.lt_or_ge (i - shift) 7 with hseven | hbeyond
    · simp [hhigh, hseven, show ¬ shift + 7 ≤ i by omega]
    · simp [hhigh, show shift + 7 ≤ i by omega, show 7 + (i - (shift + 7)) = i - shift by omega,
        show ¬ i - shift < 7 by omega]

theorem varint_byte (value : BitVec 64) {flag : Byte} (hflag : flag = 0#8 ∨ flag = 0x80#8) :
    ((value &&& 0x7F#64).setWidth 8 ||| flag).toNat &&& 0x7F = value.toNat &&& 0x7F := by
  have hpayload := congrArg BitVec.toNat (varint_payload value flag hflag)
  rw [BitVec.toNat_setWidth, BitVec.toNat_and, BitVec.toNat_and] at hpayload
  rw [Nat.mod_eq_of_lt] at hpayload
  · exact hpayload
  · exact Nat.lt_of_le_of_lt Nat.and_le_right (by decide)

theorem readVarintLoop_last (iterations : Nat) (value : BitVec 64) (hzero : value >>> 7 = 0#64)
    (rest : Bytes) (shift result : Nat) :
    readVarintLoop (iterations + 1) ((value &&& 0x7F#64).setWidth 8 :: rest) shift result =
      .ok (result ||| (value.toNat <<< shift), rest) := by
  have hbyte : ((value &&& 0x7F#64).setWidth 8 : Byte).toNat &&& 0x7F = value.toNat &&& 0x7F := by
    simpa using varint_byte value (.inl rfl)
  have hlast : ((value &&& 0x7F#64).setWidth 8 : Byte).toNat &&& 0x80 = 0 := by
    simpa using congrArg BitVec.toNat (varint_last value)
  have hhigh : value.toNat >>> 7 = 0 := by
    simpa using congrArg BitVec.toNat hzero
  have hvalue := low_or_high_nat value.toNat shift
  rw [hhigh, Nat.zero_shiftLeft, Nat.or_zero] at hvalue
  simp only [readVarintLoop, hbyte, hlast, if_true, hvalue]

theorem readVarintLoop_encodeVarintLoop (iterations more : Nat) (value : BitVec 64)
    (hvalue : value.toNat < 2 ^ (7 * (iterations + 1))) (rest : Bytes) (shift result : Nat) :
    readVarintLoop (iterations + more + 1) (encodeVarintLoop (iterations + 1) value ++ rest) shift
      result = .ok (result ||| (value.toNat <<< shift), rest) := by
  induction iterations generalizing value shift result with
  | zero =>
    rcases encodeVarintLoop_cases hvalue with ⟨hzero, hbytes⟩ | ⟨fewer, hfewer, -⟩
    · rw [hbytes]
      exact readVarintLoop_last _ value hzero rest shift result
    · cases hfewer
  | succ iterations ih =>
    rcases encodeVarintLoop_cases hvalue with
      ⟨hzero, hbytes⟩ | ⟨fewer, hfewer, -, hhigh, hbytes⟩
    · rw [hbytes]
      exact readVarintLoop_last _ value hzero rest shift result
    · cases hfewer
      have htail := ih (value >>> 7) hhigh (shift + 7)
        (result ||| (value.toNat &&& 0x7F) <<< shift)
      have hflag : ((value &&& 0x7F#64).setWidth 8 ||| 0x80#8).toNat &&& 0x80 ≠ 0 := fun hnat =>
        varint_more value (BitVec.eq_of_toNat_eq hnat)
      rw [hbytes, List.cons_append,
        show iterations + 1 + more + 1 = (iterations + more + 1) + 1 by omega, readVarintLoop]
      simp only [if_neg hflag, varint_byte value (.inr rfl)]
      rw [htail, Nat.or_assoc, BitVec.toNat_ushiftRight, low_or_high_nat]

@[simp] theorem readVarint_encodeVarint (value : BitVec 64) (rest : Bytes) :
    readVarint (encodeVarint value ++ rest) = .ok (value.toNat, rest) := by
  have hvalue : value.toNat < 2 ^ (7 * (9 + 1)) := Nat.lt_of_lt_of_le value.isLt (by decide)
  have hloop := readVarintLoop_encodeVarintLoop 9 1 value hvalue rest 0 0
  rw [Nat.zero_or, Nat.shiftLeft_zero] at hloop
  exact hloop

@[simp] theorem readFixed32_encodeFixed32 (value : BitVec 32) (rest : Bytes) :
    readFixed32 (encodeFixed32 value ++ rest) = .ok (value.toNat, rest) := by
  simp only [encodeFixed32, List.cons_append, List.nil_append, readFixed32, joinFixed32_split]

theorem joinFixed32_low (value : BitVec 64) :
    joinFixed32 (value.setWidth 8) ((value >>> 8).setWidth 8) ((value >>> 16).setWidth 8)
      ((value >>> 24).setWidth 8) = value.setWidth 32 := by
  have hbyte : ∀ shift : Nat, shift + 8 ≤ 32 →
      ((value.setWidth 32) >>> shift).setWidth 8 = (value >>> shift).setWidth 8 := by
    intro shift hshift
    apply BitVec.eq_of_getLsbD_eq
    intro i hi
    simp only [BitVec.getLsbD_setWidth, BitVec.getLsbD_ushiftRight, hi, decide_true, Bool.true_and,
      show shift + i < 32 by omega]
  have hfirst : (value.setWidth 32).setWidth 8 = value.setWidth 8 :=
    BitVec.setWidth_setWidth_of_le value (by decide)
  have hsplit := joinFixed32_split (value.setWidth 32)
  rwa [hfirst, hbyte 8 (by decide), hbyte 16 (by decide), hbyte 24 (by decide)] at hsplit

@[simp] theorem readFixed64_encodeFixed64 (value : BitVec 64) (rest : Bytes) :
    readFixed64 (encodeFixed64 value ++ rest) = .ok (value.toNat, rest) := by
  have hlo := joinFixed32_low value
  have hhi := joinFixed32_low (value >>> 32)
  simp only [← BitVec.shiftRight_add, Nat.reduceAdd] at hhi
  have hjoin : (((value >>> 32).setWidth 32).toNat <<< 32) ||| (value.setWidth 32).toNat =
      value.toNat := by
    rw [← Nat.shiftLeft_add_eq_or_of_lt (value.setWidth 32).isLt, BitVec.toNat_setWidth,
      BitVec.toNat_setWidth, BitVec.toNat_ushiftRight, Nat.shiftRight_eq_div_pow, Nat.shiftLeft_eq]
    have hlt := value.isLt
    omega
  simp only [encodeFixed64, List.cons_append, List.nil_append, readFixed64, hlo, hhi, hjoin]

/-! ### Items -/

/-- What arrives of a number that the encoder wrote. -/
def seen (host : Host) (type : FieldType) (item : Zval) : Value :=
  match type with
  | .int32 | .uint32 | .enum => .number (toNumber (zvalGetLong host item).toNat)
  | .sint32 => .number ((zvalGetLong host item).setWidth 32).toInt
  | .int64 | .uint64 | .fixed64 | .sfixed64 => .bigint (zvalGetLong host item).toNat
  | .sint64 => .bigint (zvalGetLong host item).toInt
  | .bool => .boolean (zvalGetLong host item ≠ 0)
  | .fixed32 | .sfixed32 => .number ((zvalGetLong host item).setWidth 32).toNat
  | .float => .number (roundTo 24 (host.doubleToFloat (zvalGetDouble host item)).toNat)
  | .double => .number (toNumber (zvalGetDouble host item).toNat)
  | _ => .undefined

theorem seen_ne_undefined (host : Host) {type : FieldType} (hpackable : isPackable type = true)
    (item : Zval) : seen host type item ≠ .undefined := by
  cases type <;> first | contradiction | (intro hseen; cases hseen)

theorem zigzagDecode64_zigzagEncode64 (n : BitVec 64) :
    zigzagDecode64 (zigzagEncode64 n).toNat = n.toInt := zigzagDecode64_zigzag n

theorem zigzagDecode32_zigzagEncode32 (n : BitVec 32) :
    zigzagDecode32 ((zigzagEncode32 n).setWidth 64).toNat = n.toInt := by
  have hlow : -2 ^ 31 ≤ n.toInt := BitVec.le_toInt n
  have hhigh : n.toInt < 2 ^ 31 := BitVec.toInt_lt
  have hcode : ((zigzagEncode32 n).setWidth 64).toNat = (zigzagEncode32 n).toNat := by
    rw [BitVec.toNat_setWidth_of_le (by decide)]
  have hdecode : zigzagDecode64 (zigzagEncode32 n).toNat = n.toInt := zigzagDecode64_zigzag n
  rw [zigzagDecode32, hcode, hdecode, toNumber_of_lt]
  omega

theorem readScalar_encodePackedItem (env : Env) (decodeNested : Decoder) {field : FieldDef}
    (hpackable : isPackable field.type = true) (host : Host) (item : Zval) (rest : Bytes) :
    readScalar env decodeNested field (encodePackedItem host field.type item ++ rest) =
      .ok (seen host field.type item, rest) := by
  have hzero : (zvalGetLong host item).toNat = 0 ↔ zvalGetLong host item = 0 := by
    rw [← BitVec.toNat_inj]
    rfl
  unfold readScalar seen
  cases htype : field.type <;> rw [htype] at hpackable <;> try contradiction
  all_goals
    simp only [encodePackedItem, readVarint_encodeVarint, readFixed32_encodeFixed32,
      readFixed64_encodeFixed64, bind, Except.bind, zigzagDecode32_zigzagEncode32,
      zigzagDecode64_zigzagEncode64, ne_eq, hzero]

theorem roundTo_length (hlength : content.length < 2 ^ 53) :
    roundTo 53 (BitVec.ofNat 64 content.length).toNat = content.length := by
  rw [BitVec.toNat_ofNat, Nat.mod_eq_of_lt (Nat.lt_trans hlength (by decide)),
    roundTo_of_lt hlength]

theorem readSlice_lengthPrefixed (overflow : Error) (hlength : content.length < 2 ^ 53)
    (rest : Bytes) :
    readSlice overflow (lengthPrefixed content ++ rest) = .ok (content, rest) := by
  simp only [readSlice, lengthPrefixed, List.append_assoc, readVarint_encodeVarint, bind,
    Except.bind, roundTo_length hlength]
  rw [if_neg (by simp), List.take_left, List.drop_left]

theorem skipField_lengthPrefixed (hlength : content.length < 2 ^ 53) (rest : Bytes) :
    skipField (lengthPrefixed content ++ rest) 2 = .ok rest := by
  simp only [skipField, lengthPrefixed, List.append_assoc, readVarint_encodeVarint, bind,
    Except.bind, roundTo_length hlength, List.drop_left]

theorem skipField_encodePackedItem (host : Host) {type : FieldType}
    (hpackable : isPackable type = true) (item : Zval) (rest : Bytes) :
    skipField (encodePackedItem host type item ++ rest)
      (calculateFieldWireType type false).toNat = .ok rest := by
  have hvarint : ∀ value, skipField (encodeVarint value ++ rest) 0 = .ok rest := by
    intro value
    simp only [skipField, readVarint_encodeVarint, bind, Except.bind]
  have hfixed32 : ∀ value, skipField (encodeFixed32 value ++ rest) 5 = .ok rest := fun _ => rfl
  have hfixed64 : ∀ value, skipField (encodeFixed64 value ++ rest) 1 = .ok rest := fun _ => rfl
  cases type
  case unknown | string | bytes | message => exact absurd hpackable (by decide)
  case double | fixed64 | sfixed64 => exact hfixed64 _
  case float | fixed32 | sfixed32 => exact hfixed32 _
  all_goals exact hvarint _

/-! ### Mirrored field tables -/

/-- An integer or boolean of JavaScript and one of PHP. -/
def SameItem : Value → Zval → Prop
  | .number n, .long m => n = m.toInt
  | .bigint n, .long m => n = m.toInt
  | .boolean b, .bool c => b = c
  | _, _ => False

/-- The same integer, boolean or list of these; for a default of another kind, its
    counterpart in the field table. -/
inductive Same : Value → Zval → Prop where
  | item {value : Value} {item : Zval} (hsame : SameItem value item) : Same value item
  | list {values : List Value} {items : List Zval} (hsame : List.Forall₂ SameItem values items) :
      Same (.array values) (.array (listTable items))
  | foreign (value : Zval) : Same (.foreign value) value

/-- An entry of the JavaScript table that says of a field what the compiled schema says. -/
structure Mirrors (field : Iibin.FieldDef) (entry : Nat × FieldDef) : Prop where
  tag : entry.1 = field.tag.toNat
  name : entry.2.name = field.nameInPhp
  type : entry.2.type = field.type
  flags : entry.2.flags = field.flags
  default : (field.defaultValueZval = .undef ∧ entry.2.default = .undefined) ∨
    (field.defaultValueZval.isUndef = false ∧ Same entry.2.default field.defaultValueZval)

/-- The table in the order of `Object.keys` mirrors the fields in the order of their tags. -/
def MirrorsSchema (schema : CompiledSchema) (table : Schema) : Prop :=
  List.Forall₂ Mirrors schema.orderedFields table.fieldsByTag

variable {schema : CompiledSchema}

theorem MirrorsSchema.lookup (hmirrors : MirrorsSchema schema table)
    (hformed : schema.WellFormed registry) (hfield : field ∈ schema.orderedFields) :
    ∃ mirror, table.fieldsByTag.lookup field.tag.toNat = some mirror ∧
      Mirrors field (field.tag.toNat, mirror) := by
  have hkeys : OrderedMap.keys table.fieldsByTag =
      schema.orderedFields.map fun field => field.tag.toNat := by
    rw [OrderedMap.keys, eq_comm, ← List.forall₂_eq_eq_eq, List.forall₂_map_left_iff,
      List.forall₂_map_right_iff]
    exact hmirrors.imp fun _ _ hmirror => hmirror.tag.symm
  have hnodup : (OrderedMap.keys table.fieldsByTag).Nodup := by
    rw [hkeys, List.Nodup, List.pairwise_map]
    exact hformed.sorted.imp Nat.ne_of_lt
  obtain ⟨entry, hentry, hmirror⟩ := OrderedMap.exists_related hmirrors hfield
  obtain ⟨tag, mirror⟩ := entry
  obtain rfl : tag = field.tag.toNat := hmirror.tag
  exact ⟨mirror, OrderedMap.lookup_of_mem hnodup hentry, hmirror⟩

/-! ### What is delivered -/

/-- What nested messages are on the other side. -/
abbrev Viewer := CompiledSchema → Schema → Zval → Except Error Props

/-- The bytes of a string; the encoder takes nothing else for a string. -/
def stringBytes : Zval → Bytes
  | .string s => s
  | _ => []

variable {viewMessage : Viewer}

section

variable (env : Env) (host : Host) (registry : Registry)

/-- What `decode` does with a value of the field. -/
def deliver (field : Iibin.FieldDef) (obj : Props) (value : Value) : Except Error Props :=
  if field.flags.repeated then pushProperty env obj field.nameInPhp value
  else setProperty env obj field.nameInPhp value

/-- What an item of a field is on the other side. No message is sent without a schema for it. -/
def viewItem (viewMessage : Viewer) (field : Iibin.FieldDef) (mirror : FieldDef) (item : Zval) :
    Except Error Value :=
  match field.type with
  | .string => .ok (.string (env.textDecode (stringBytes item)))
  | .bytes => .ok (.bytes (stringBytes item))
  | .message =>
    match getCompiledIibinSchemaInternal registry (field.messageTypeNameIfNested.getD []),
      nestedSchema env mirror with
    | some schema, .ok table => (viewMessage schema table item).map .object
    | _, _ => .ok (.object [])
  | type => .ok (seen host type item)

/-- What `decode` does with an item of a field. A field that the table does not know is passed
    over. -/
def deliverItem (viewMessage : Viewer) (table : Schema) (field : Iibin.FieldDef) (obj : Props)
    (item : Zval) : Except Error Props :=
  match table.fieldsByTag.lookup field.tag.toNat with
  | none => .ok obj
  | some mirror =>
    viewItem env host registry viewMessage field mirror item >>= deliver env field obj

/-- What `decode` does with the items of a field. -/
def deliverMember (viewMessage : Viewer) (table : Schema) (data : Zval) (obj : Props)
    (field : Iibin.FieldDef) : Except Error Props :=
  (sentItems registry field (readMember data field.nameInPhp)).foldlM
    (deliverItem env host registry viewMessage table field) obj

end

/-- The bytes make the loop of `decode` do this to the object. -/
abbrev Delivers (env : Env) (decodeNested : Decoder) (table : Schema) (bytes : Bytes)
    (effect : Props → Except Error Props) : Prop :=
  Runs .exhausted (guarded .exhausted (decodeField env decodeNested table)) id bytes effect

section

variable {env : Env} {decodeNested : Decoder}

theorem viewItem_number (hpackable : isPackable field.type = true) (mirror : FieldDef)
    (item : Zval) :
    viewItem env host registry viewMessage field mirror item =
      .ok (seen host field.type item) := by
  unfold viewItem
  cases htype : field.type
  case string | bytes | message =>
    rw [htype] at hpackable
    exact absurd hpackable (by decide)
  all_goals rfl

theorem deliverItem_unknown (hlookup : table.fieldsByTag.lookup field.tag.toNat = none) :
    deliverItem env host registry viewMessage table field = fun obj _ => .ok obj := by
  funext obj item
  rw [deliverItem, hlookup]

theorem deliverItem_known (hlookup : table.fieldsByTag.lookup field.tag.toNat = some mirror) :
    deliverItem env host registry viewMessage table field = fun obj item =>
      viewItem env host registry viewMessage field mirror item >>= deliver env field obj := by
  funext obj item
  rw [deliverItem, hlookup]

theorem deliver_mirror (hmirror : Mirrors field (field.tag.toNat, mirror)) :
    storeValue env mirror = deliver env field := by
  have hname : mirror.name = field.nameInPhp := hmirror.name
  have hflags : mirror.flags = field.flags := hmirror.flags
  funext obj value
  rw [storeValue, deliver, hname, hflags]

/-! ### Turns of the loop -/

theorem key_parts {key tag : Nat} (hkey : key = 8 * tag + wireType) (hwire : wireType < 8) :
    key >>> 3 = tag ∧ key &&& 7 = wireType := by
  have hmask : key &&& 7 = key % 2 ^ 3 := Nat.and_two_pow_sub_one_eq_mod key 3
  rw [hmask, Nat.shiftRight_eq_div_pow]
  omega

theorem writtenKey_toNat (htyped : field.WellTyped registry) (htag : field.SmallTag) :
    (writtenKey field).toNat = 8 * field.tag.toNat + (writtenWireType field).toNat := by
  rw [writtenKey, fieldKey_toNat _ htyped.writtenWireType_lt, Nat.mod_eq_of_lt htag.2]

/-- What is done behind a key: by the table, for a field that it knows. -/
theorem decodeField_key (hkey : key.toNat = 8 * field.tag.toNat + wireType) (hwire : wireType < 8)
    (bytes : Bytes) (obj : Props) :
    decodeField env decodeNested table (encodeVarint key ++ bytes) obj =
      match table.fieldsByTag.lookup field.tag.toNat with
      | none => skipField bytes wireType >>= fun rest => .ok (rest, obj)
      | some mirror =>
        if mirror.flags.packed = true ∧ wireType = 2 then
          decodePacked env decodeNested field.tag.toNat mirror bytes obj
        else decodeSingle env decodeNested mirror bytes obj := by
  obtain ⟨htag, hlow⟩ := key_parts hkey hwire
  have hround : roundTo 53 field.tag.toNat = field.tag.toNat :=
    roundTo_of_lt (Nat.lt_trans field.tag.isLt (by decide))
  unfold decodeField
  cases hlookup : table.fieldsByTag.lookup field.tag.toNat <;>
    simp only [readVarint_encodeVarint, bind, Except.bind, htag, hround, hlow, hlookup]

variable (hnested : ∀ bytes schema, Proper (fun _ => True) (decodeNested bytes schema))

include hnested

/-- What one turn of the loop does to the bytes of an occurrence, it does to the object. -/
theorem delivers_occurrence {effect : Props → Except Error Props}
    (hturn : ∀ rest obj, decodeField env decodeNested table (encodeVarint key ++ (payload ++ rest))
      obj = effect obj >>= fun obj => .ok (rest, obj)) :
    Delivers env decodeNested table (encodeVarint key ++ payload) effect := by
  have hne : encodeVarint key ++ payload ≠ [] :=
    List.append_ne_nil_of_left_ne_nil (encodeVarint_ne_nil _) _
  refine Runs.of_step (decodeField_shrinks env hnested table) hne fun rest obj => ?_
  rw [guarded_of_ne (List.append_ne_nil_of_left_ne_nil hne _), List.append_assoc]
  exact hturn rest obj

/-- A value of a field that the table knows, behind a key with its own wire type. -/
theorem single_delivered (hkey : key.toNat = 8 * field.tag.toNat + wireType)
    (hwire : wireType < 8) (hsingle : ¬ (field.flags.packed = true ∧ wireType = 2))
    (hlookup : table.fieldsByTag.lookup field.tag.toNat = some mirror)
    (hmirror : Mirrors field (field.tag.toNat, mirror)) {view : Except Error Value}
    (hread : ∀ rest, readScalar env decodeNested mirror (payload ++ rest) =
      view >>= fun value => .ok (value, rest)) :
    Delivers env decodeNested table (encodeVarint key ++ payload)
      fun obj => view >>= deliver env field obj := by
  have hflags : mirror.flags = field.flags := hmirror.flags
  refine delivers_occurrence hnested fun rest obj => ?_
  rw [decodeField_key hkey hwire, hlookup]
  dsimp only
  rw [hflags, if_neg hsingle]
  simp only [decodeSingle, hread, deliver_mirror hmirror]
  rcases view with error | value <;> rfl

variable (htyped : field.WellTyped registry) (htag : field.SmallTag)

include htyped htag

/-- An occurrence of a field that the table does not know. -/
theorem occurrence_skipped (hunknown : table.fieldsByTag.lookup field.tag.toNat = none)
    (hskip : ∀ rest, skipField (payload ++ rest) (writtenWireType field).toNat = .ok rest) :
    Delivers env decodeNested table (encodeVarint (writtenKey field) ++ payload) .ok := by
  refine delivers_occurrence hnested fun rest obj => ?_
  rw [decodeField_key (writtenKey_toNat htyped htag) htyped.writtenWireType_lt, hunknown]
  dsimp only
  rw [hskip]
  rfl

theorem value_skipped (hunknown : table.fieldsByTag.lookup field.tag.toNat = none)
    (hunpacked : field.flags.packed = false)
    (hok : encodeSingleFieldValue host registry encodeMessage field value = .ok bytes)
    (hlength : bytes.length < 2 ^ 53) : Delivers env decodeNested table bytes .ok := by
  have hwire : writtenWireType field = calculateFieldWireType field.type false := by
    rw [htyped.writtenWireType_eq, htyped.wire, hunpacked]
  by_cases hdelimited : Wire.layout field.type = some .delimited
  · obtain ⟨content, rfl⟩ := encodeSingleFieldValue_delimited hdelimited hok
    have hdelim : calculateFieldWireType field.type false = 2 := by
      revert hdelimited
      cases field.type <;> decide
    have hless := length_le_lengthPrefixed content
    rw [List.length_append] at hlength
    rw [fieldKey_eq_writtenKey htyped]
    refine occurrence_skipped hnested htyped htag hunknown fun rest => ?_
    rw [hwire, hdelim]
    exact skipField_lengthPrefixed (by omega) rest
  · have hpackable := (layout_ne_delimited_iff htyped.known).mpr hdelimited
    rw [encodeSingleFieldValue_scalar hpackable hok, fieldKey_eq_writtenKey htyped]
    refine occurrence_skipped hnested htyped htag hunknown fun rest => ?_
    rw [hwire]
    exact skipField_encodePackedItem host hpackable _ rest

end

/-! ### Packed lists -/

section

variable (env : Env) (decodeNested : Decoder)

theorem packedLoop_encoded (host : Host) (hpackable : isPackable mirror.type = true)
    (items : List Zval) (rest : Bytes) {fuel : Nat}
    (hfuel : (items.flatMap (encodePackedItem host mirror.type)).length ≤ fuel) (obj : Props) :
    packedLoop env decodeNested mirror rest.length fuel
        (items.flatMap (encodePackedItem host mirror.type) ++ rest) obj =
      items.foldlM (fun obj item =>
          pushProperty env obj mirror.name (seen host mirror.type item)) obj >>=
        fun obj => .ok (rest, obj) := by
  induction items generalizing fuel obj with
  | nil => rcases fuel with _ | fuel <;> simp [packedLoop, bind, Except.bind, pure, Except.pure]
  | cons item items ih =>
    have hbytes : 0 < (encodePackedItem host mirror.type item).length :=
      List.length_pos_of_ne_nil (encodePackedItem_ne_nil host hpackable item)
    rw [List.flatMap_cons, List.length_append] at hfuel
    obtain ⟨fuel, rfl⟩ : ∃ less, fuel = less + 1 := ⟨fuel - 1, by omega⟩
    rw [List.flatMap_cons, List.append_assoc, packedLoop,
      if_pos (by simp only [List.length_append]; omega),
      readScalar_encodePackedItem env decodeNested hpackable]
    simp only [List.foldlM_cons, bind, Except.bind]
    rcases pushProperty env obj mirror.name (seen host mirror.type item) with error | next
    · rfl
    · exact ih (by omega) next

theorem decodePacked_encoded (host : Host) (hpackable : isPackable mirror.type = true) (tag : Nat)
    {items : List Zval}
    (hlength : (items.flatMap (encodePackedItem host mirror.type)).length < 2 ^ 53) (rest : Bytes)
    (obj : Props) :
    decodePacked env decodeNested tag mirror
        (lengthPrefixed (items.flatMap (encodePackedItem host mirror.type)) ++ rest) obj =
      items.foldlM (fun obj item =>
          pushProperty env obj mirror.name (seen host mirror.type item)) obj >>=
        fun obj => .ok (rest, obj) := by
  have hfuel : (items.flatMap (encodePackedItem host mirror.type)).length ≤
      (items.flatMap (encodePackedItem host mirror.type) ++ rest).length := by simp
  have hloop := packedLoop_encoded env decodeNested host hpackable items rest hfuel obj
  clear hfuel
  generalize items.flatMap (encodePackedItem host mirror.type) = content at hlength hloop ⊢
  have hafter : (content ++ rest).length - content.length = rest.length := by
    rw [List.length_append, Nat.add_sub_cancel_left]
  rw [← hloop, ← hafter]
  simp only [decodePacked, lengthPrefixed, List.append_assoc, readVarint_encodeVarint, bind,
    Except.bind, roundTo_length hlength]
  exact if_neg (by simp)

end

/-! ### Fields and messages -/

/-- What a field has to be for its items to arrive: the table does not know it, or has it as the
    schema has it, and messages of the field are decoded to their views. -/
structure Arrives (env : Env) (registry : Registry) (encodeMessage : MessageEncoder)
    (decodeNested : Decoder) (viewMessage : Viewer) (table : Schema) (field : Iibin.FieldDef) :
    Prop where
  mirrors : ∀ mirror, table.fieldsByTag.lookup field.tag.toNat = some mirror →
    Mirrors field (field.tag.toNat, mirror)
  nested : ∀ mirror, table.fieldsByTag.lookup field.tag.toNat = some mirror →
    field.type = .message → ∀ schema value content,
      getCompiledIibinSchemaInternal registry (field.messageTypeNameIfNested.getD []) =
        some schema → encodeMessage schema value = .ok content → content.length < 2 ^ 53 →
      ∃ nestedTable, nestedSchema env mirror = .ok nestedTable ∧
        decodeNested content nestedTable = viewMessage schema nestedTable value

section

variable {env : Env} {decodeNested : Decoder}

/-- A value as it is read back from behind its key. -/
theorem readScalar_value
    (harrives : Arrives env registry encodeMessage decodeNested viewMessage table field)
    (hlookup : table.fieldsByTag.lookup field.tag.toNat = some mirror)
    (htyped : field.WellTyped registry)
    (hok : encodeSingleFieldValue host registry encodeMessage field value = .ok bytes)
    (hlength : bytes.length < 2 ^ 53) :
    ∃ payload, bytes = encodeVarint (fieldKey field.tag field.wireType) ++ payload ∧
      ∀ rest, readScalar env decodeNested mirror (payload ++ rest) =
        viewItem env host registry viewMessage field mirror (numbered registry field value) >>=
          fun view => .ok (view, rest) := by
  have htype : mirror.type = field.type := (harrives.mirrors mirror hlookup).type
  by_cases hpackable : isPackable field.type = true
  · refine ⟨_, encodeSingleFieldValue_scalar hpackable hok, fun rest => ?_⟩
    rw [viewItem_number hpackable, ← htype,
      readScalar_encodePackedItem env decodeNested (by rwa [htype])]
    rfl
  · obtain ⟨-, payload, hpayload, rfl⟩ := encodeSingleFieldValue_ok hok
    refine ⟨payload, rfl, fun rest => ?_⟩
    rw [List.length_append] at hlength
    unfold encodeValue at hpayload
    unfold readScalar viewItem numbered
    rw [htype]
    cases hfield : field.type <;> simp only [hfield] at hpayload hpackable ⊢
    case string | bytes =>
      split at hpayload
      · rename_i content
        cases hpayload
        have hless := length_le_lengthPrefixed content
        rw [readSlice_lengthPrefixed _ (by omega)]
        rfl
      · cases hpayload
    case message =>
      obtain ⟨nested, content, hfound, hcontent, rfl⟩ := encodeNested_content hpayload
      have hless := length_le_lengthPrefixed content
      obtain ⟨nestedTable, htable, hview⟩ := harrives.nested mirror hlookup hfield nested value
        content hfound hcontent (by omega)
      rw [readSlice_lengthPrefixed _ (by omega)]
      simp only [bind, Except.bind, htable, hfound, hview]
      rcases viewMessage nested nestedTable value with error | props <;> rfl
    case unknown => exact absurd hfield htyped.known
    all_goals exact absurd rfl hpackable

variable (hnested : ∀ bytes schema, Proper (fun _ => True) (decodeNested bytes schema))
  (htyped : field.WellTyped registry) (htag : field.SmallTag)
  (harrives : Arrives env registry encodeMessage decodeNested viewMessage table field)

include hnested htyped htag harrives

/-- A packed list of numbers. -/
theorem block_delivered (hpacked : field.flags.packed = true) {items : List Zval}
    (hlength : (items.flatMap (encodePackedItem host field.type)).length < 2 ^ 53) :
    Delivers env decodeNested table (encodeVarint (writtenKey field) ++
        lengthPrefixed (items.flatMap (encodePackedItem host field.type)))
      (items.foldlM (deliverItem env host registry viewMessage table field)) := by
  obtain ⟨hrepeated, hpackable⟩ := htyped.packed hpacked
  have hwire : writtenWireType field = 2 := if_pos hpacked
  rcases hlookup : table.fieldsByTag.lookup field.tag.toNat with _ | mirror
  · have hnothing : (fun obj => items.foldlM
        (deliverItem env host registry viewMessage table field) obj) = .ok := by
      rw [deliverItem_unknown hlookup]
      exact funext (foldlM_ok items)
    rw [hnothing]
    refine occurrence_skipped hnested htyped htag hlookup fun rest => ?_
    rw [hwire]
    exact skipField_lengthPrefixed hlength rest
  · have hmirror := harrives.mirrors mirror hlookup
    have htype : mirror.type = field.type := hmirror.type
    have hname : mirror.name = field.nameInPhp := hmirror.name
    have hflags : mirror.flags = field.flags := hmirror.flags
    have hstore : deliverItem env host registry viewMessage table field =
        fun obj item => pushProperty env obj mirror.name (seen host mirror.type item) := by
      rw [deliverItem_known hlookup]
      funext obj item
      rw [viewItem_number hpackable, hname, htype]
      exact if_pos hrepeated
    refine delivers_occurrence hnested fun rest obj => ?_
    rw [decodeField_key (writtenKey_toNat htyped htag) htyped.writtenWireType_lt, hlookup, hstore]
    dsimp only
    rw [hflags, if_pos ⟨hpacked, congrArg BitVec.toNat hwire⟩]
    rw [← htype] at hlength hpackable ⊢
    exact decodePacked_encoded env decodeNested host hpackable _ hlength rest obj

theorem value_delivered (hunpacked : field.flags.packed = false)
    (hok : encodeSingleFieldValue host registry encodeMessage field value = .ok bytes)
    (hlength : bytes.length < 2 ^ 53) :
    Delivers env decodeNested table bytes fun obj =>
      deliverItem env host registry viewMessage table field obj
        (numbered registry field value) := by
  rcases hlookup : table.fieldsByTag.lookup field.tag.toNat with _ | mirror
  · rw [deliverItem_unknown hlookup]
    exact value_skipped hnested htyped htag hlookup hunpacked hok hlength
  · obtain ⟨payload, rfl, hread⟩ := readScalar_value harrives hlookup htyped hok hlength
    rw [fieldKey_eq_writtenKey htyped, deliverItem_known hlookup]
    exact single_delivered hnested (writtenKey_toNat htyped htag) htyped.writtenWireType_lt
      (by simp [hunpacked]) hlookup (harrives.mirrors mirror hlookup) hread

/-- **A field** is delivered item by item. -/
theorem delivered_occurs :
    Occurs .exhausted (guarded .exhausted (decodeField env decodeNested table)) id host registry
      encodeMessage (2 ^ 53) field (deliverItem env host registry viewMessage table field) where
  typed := htyped
  value hunpacked _ _ hok hlength :=
    value_delivered hnested htyped htag harrives hunpacked hok hlength
  block hpacked _ _ hlength := block_delivered hnested htyped htag harrives hpacked hlength

end

/-- **`decode` on the bytes of a message**: the fields are delivered one after the other, then the
    table is gone through for what is missing. -/
theorem decode_fields {env : Env} (depth : Nat) (hformed : schema.WellFormed registry)
    (htags : schema.SmallTags) (harrive : ∀ field ∈ schema.orderedFields,
      Arrives env registry encodeMessage (decode env depth) viewMessage table field) {data : Zval}
    (hok : encodeFields host registry encodeMessage data schema.orderedFields = .ok bytes)
    (hlength : bytes.length < 2 ^ 53) :
    decode env (depth + 1) bytes table =
      schema.orderedFields.foldlM (deliverMember env host registry viewMessage table data) [] >>=
        table.fieldsByTag.foldlM (populateField env table.name) := by
  have hruns := encodeFields_runs (fun field hfield => delivered_occurs (decode_proper env depth)
    (hformed.fields field hfield) (htags field hfield) (harrive field hfield)) hok hlength
  have hdrain : drainAll .exhausted (decodeField env (decode env depth) table) bytes [] =
      schema.orderedFields.foldlM (deliverMember env host registry viewMessage table data) [] := by
    rw [← drainAll_guarded]
    exact (hruns.drainAll_eq []).trans (bind_pure _)
  rw [decode, hdrain]

/-! ### Messages of numbers -/

/-- The values that arrive for a field of a message. -/
def seenItems (host : Host) (registry : Registry) (data : Zval) (field : Iibin.FieldDef) :
    List Value :=
  (sentItems registry field (readMember data field.nameInPhp)).map (seen host field.type)

def deliverAll (env : Env) (host : Host) (registry : Registry) (data : Zval) (obj : Props)
    (field : Iibin.FieldDef) : Except Error Props :=
  (seenItems host registry data field).foldlM (deliver env field) obj

/-- The JavaScript decoder on the bytes of a message of integers. -/
theorem decode_encoded (env : Env) (depth : Nat) {schemaName : Bytes}
    (hformed : schema.WellFormed registry) (hfound : registry.Has schemaName schema)
    (hmirrors : MirrorsSchema schema table) (htags : schema.SmallTags)
    (hintegral : schema.IsIntegral) {data : Zval}
    (hok : quicproIibinEncode host registry schemaName data = .ok bytes)
    (hlength : bytes.length < 2 ^ 53) :
    decode env (depth + 1) bytes table =
      schema.orderedFields.foldlM (deliverAll env host registry data) [] >>=
        table.fieldsByTag.foldlM (populateField env table.name) := by
  obtain ⟨below, -, -, hfields⟩ := quicproIibinEncode_ok hfound hok
  -- no message is nested, so that nothing is to be known about nested ones
  let viewMessage : Viewer := fun _ _ _ => .ok []
  have harrive : ∀ field ∈ schema.orderedFields, Arrives env registry
      (encodeMessageInternal host registry below) (decode env depth) viewMessage table field := by
    intro field hfield
    obtain ⟨mirror, hlookup, hmirror⟩ := hmirrors.lookup hformed hfield
    refine ⟨fun other hother => ?_, fun _ _ hmessage => ?_⟩
    · cases hlookup.symm.trans hother
      exact hmirror
    · exact absurd (hintegral field hfield) (by rw [hmessage]; decide)
  have hdeliver : ∀ field ∈ schema.orderedFields, ∀ obj,
      deliverMember env host registry viewMessage table data obj field =
        deliverAll env host registry data obj field := by
    intro field hfield obj
    obtain ⟨mirror, hlookup, -⟩ := hmirrors.lookup hformed hfield
    have hpackable := FieldType.isPackable_of_isIntegral (hintegral field hfield)
    simp only [deliverMember, deliverAll, seenItems, deliverItem_known hlookup,
      viewItem_number hpackable, List.foldlM_map]
    rfl
  rw [decode_fields depth hformed htags harrive hfields hlength]
  congr 1
  exact (foldlM_congr (fun _ _ => True) (fun before field after obj hsplit _ =>
    ⟨hdeliver field (by simp [hsplit]) obj, fun _ _ => trivial⟩) trivial).1

/-- The table of the schema with the one field `x` of type `int32`. -/
def int32Table : Schema where
  name := ascii "P"
  fieldsByTag := [(1, ⟨ascii "x", .int32, ⟨true, false, false, false⟩, none, .undefined⟩)]

theorem int32_mirrors :
    ∃ schema, Registry.Has (oneSchema (fieldOptions 1 "int32" [])) (ascii "P") schema ∧
      MirrorsSchema schema int32Table :=
  ⟨_, rfl, .cons ⟨rfl, rfl, rfl, rfl, .inl ⟨rfl, rfl⟩⟩ .nil⟩

end QuicproAsync.Iibin.Js

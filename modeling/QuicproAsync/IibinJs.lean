import Mathlib.Data.Int.Bitwise
import QuicproAsync.IibinSchema
import QuicproAsync.ScanLoop

/-!
# `iibin.js`: the JavaScript decoder

The reference decoder for browsers and Node. An `offset` into the buffer is modelled by
the bytes from there on; a `Uint8Array` is shorter than 2^53 bytes, so sums of offsets
and lengths that stay inside it are exact, and an offset behind the end reads like the
end. The numbers that occur are integers: a `bigint` is exact, a `Number` has 53
significant bits. The result is an ordinary object, which inherits from
`Object.prototype` until a value for the field `__proto__` gives it another prototype;
what the engine makes of properties from then on is a parameter.

`readScalar` computes the wire type it expects and does not look at it; `asObject`,
`enumType`, `wireType` and `requiredTags` are not read at all.
-/

namespace QuicproAsync.Iibin.Js

open Php Fallible ScanLoop

/-! ### Values -/

/-- The nearest number with `precision` significant bits; a tie goes to the even one. -/
def roundTo (precision n : Nat) : Nat :=
  let unit := 2 ^ (n.log2 + 1 - precision)
  let below := n / unit
  let remainder := n % unit
  if 2 * remainder < unit ∨ (2 * remainder = unit ∧ below % 2 = 0) then unit * below
  else unit * (below + 1)

/-- `Number(n)` of a `bigint`. -/
def toNumber (n : Int) : Int := n.sign * roundTo 53 n.natAbs

inductive Value where
  | undefined
  /-- a `Number` -/
  | number (n : Int)
  | bigint (n : Int)
  | boolean (b : Bool)
  | string (s : Bytes)
  /-- a `Uint8Array` -/
  | bytes (content : Bytes)
  | array (items : List Value)
  | object (props : List (Bytes × Value))
  /-- what an object inherits from `Object.prototype` under this name -/
  | inherited (name : Bytes)
  /-- a default of the field table that is not an integer, a boolean or a list of these -/
  | foreign (value : Zval)

/-- Conversion to a boolean. -/
def Value.isTruthy : Value → Bool
  | .undefined => false
  | .number n => n ≠ 0
  | .bigint n => n ≠ 0
  | .boolean b => b
  | .string s => !s.isEmpty
  | _ => true

def Value.isObject : Value → Bool
  | .bytes _ => true
  | .array _ => true
  | .object _ => true
  | .inherited _ => true
  | _ => false

/-- The own properties of an object. No assignment makes one called `__proto__`: an entry under
    this name is the prototype that the object was given in place of `Object.prototype`. -/
abbrev Props := List (Bytes × Value)

def protoName : Bytes := ascii "__proto__"

def inheritedNames : List Bytes :=
  [ ascii "constructor", ascii "__defineGetter__", ascii "__defineSetter__",
    ascii "hasOwnProperty", ascii "__lookupGetter__", ascii "__lookupSetter__",
    ascii "isPrototypeOf", ascii "propertyIsEnumerable", ascii "toString", ascii "valueOf",
    protoName, ascii "toLocaleString" ]

instance decidableInherited (name : Bytes) : Decidable (name ∈ inheritedNames) := inferInstance

inductive Error where
  | varintTooLong
  | underrunFixed32
  | underrunFixed64
  | packedOverflow (tag : Nat)
  | stringOverflow
  | nestedOverflow
  | nestedNotRegistered (name : Bytes)
  | unsupportedType
  | unknownWireType (wireType : Nat)
  | requiredMissing (field schema : Bytes)
  /-- a `TypeError` of the engine -/
  | typeError
  /-- the stack of the engine is used up -/
  | depth
  /-- the budget of iterations is used up -/
  | exhausted

def text (name : Bytes) : String := String.ofList (name.map fun byte => Char.ofNat byte.toNat)

/-- The messages of the `Error`s that the file throws (of an unsupported type only the
    beginning; the model does not keep its name). -/
def Error.message : Error → Option String
  | .varintTooLong => some "Varint too long – corrupt"
  | .underrunFixed32 => some "Buffer underrun (fixed32)"
  | .underrunFixed64 => some "Buffer underrun (fixed64)"
  | .packedOverflow tag => some ("Packed field length overflow for tag " ++ toString tag)
  | .stringOverflow => some "String length overflow"
  | .nestedOverflow => some "Nested length overflow"
  | .nestedNotRegistered name => some ("Nested schema " ++ text name ++ " not registered")
  | .unsupportedType => some "Unsupported type "
  | .unknownWireType wireType => some ("Unknown wire‑type " ++ toString wireType)
  | .requiredMissing field schema =>
    some ("Required field " ++ text field ++ " missing (schema " ++ text schema ++ ")")
  | _ => none

/-! ### Field tables -/

structure FieldDef where
  name : Bytes
  /-- the string of the `type`; `unknown` stands for one that `readScalar` does not list -/
  type : FieldType
  flags : FieldFlags
  nested : Option Bytes
  default : Value

/-- The entries of `fieldsByTag` in the order of `Object.keys`: integer keys ascend. -/
structure Schema where
  name : Bytes
  fieldsByTag : List (Nat × FieldDef)

/-- What the engine does with an object that was given another prototype: `obj[name]`,
    `obj[name] = value` and `obj[name].push(value)`, the last two with the object afterwards, none
    for a `TypeError`. -/
structure Engine where
  get : Props → Bytes → Value
  set : Props → Bytes → Value → Option Props
  push : Props → Bytes → Value → Option Props

instance : Inhabited Engine := ⟨fun _ _ => .undefined, fun _ _ _ => none, fun _ _ _ => none⟩

/-- The registry of nested schemas, the platform's `TextDecoder` and its engine. -/
structure Env where
  schemas : List (Bytes × Schema)
  textDecode : Bytes → Bytes
  engine : Engine

/-! ### Properties -/

section

variable (env : Env)

/-- `obj[name]`. -/
def getProperty (obj : Props) (name : Bytes) : Value :=
  match obj.lookup protoName with
  | some _ => env.engine.get obj name
  | none =>
    match obj.lookup name with
    | some value => value
    | none => if name ∈ inheritedNames then .inherited name else .undefined

/-- What the engine leaves of an object. -/
def orTypeError : Option Props → Except Error Props
  | some obj => .ok obj
  | none => .error .typeError

/-- `obj[name] = value`. The setter of `__proto__` ignores everything but objects. -/
def setProperty (obj : Props) (name : Bytes) (value : Value) : Except Error Props :=
  match obj.lookup protoName with
  | some _ => orTypeError (env.engine.set obj name value)
  | none =>
    if name = protoName ∧ value.isObject = false then .ok obj
    else .ok (OrderedMap.assign name value obj)

/-- `if (!obj[name]) obj[name] = [];` -/
def ensureArray (obj : Props) (name : Bytes) : Except Error Props :=
  if (getProperty env obj name).isTruthy then .ok obj else setProperty env obj name (.array [])

/-- `obj[name].push(value);` -/
def callPush (obj : Props) (name : Bytes) (value : Value) : Except Error Props :=
  match obj.lookup protoName, getProperty env obj name with
  | none, .array items => .ok (OrderedMap.assign name (.array (items ++ [value])) obj)
  -- the prototype that an object was given may have a `push`
  | some _, _ => orTypeError (env.engine.push obj name value)
  | none, .object props =>
    match props.lookup protoName with
    | some _ => orTypeError (env.engine.push obj name value)
    | none => .error .typeError
  | none, _ => .error .typeError

/-- `if (!obj[name]) obj[name] = []; obj[name].push(value);` -/
def pushProperty (obj : Props) (name : Bytes) (value : Value) : Except Error Props := do
  let obj ← ensureArray env obj name
  callPush env obj name value

end

/-! ### Readers -/

/-- The loop of `readVarint`, which ends quietly with the buffer. The eleventh byte that
    announces another one makes the shift exceed 70. -/
def readVarintLoop : Nat → Bytes → Nat → Nat → Except Error (Nat × Bytes)
  | 0, _, _, _ => .error .varintTooLong
  | _ + 1, [], _, result => .ok (result, [])
  | iterations + 1, byte :: rest, shift, result =>
    let result := result ||| ((byte.toNat &&& 0x7F) <<< shift)
    if byte.toNat &&& 0x80 = 0 then .ok (result, rest)
    else readVarintLoop iterations rest (shift + 7) result

def readVarint (bytes : Bytes) : Except Error (Nat × Bytes) := readVarintLoop 11 bytes 0 0

def zigzagDecode64 (n : Nat) : Int := Int.xor (n >>> 1 : Nat) (-(n &&& 1 : Nat))

def zigzagDecode32 (n : Nat) : Int := toNumber (zigzagDecode64 n)

def readFixed32 : Bytes → Except Error (Nat × Bytes)
  | b0 :: b1 :: b2 :: b3 :: rest => .ok ((joinFixed32 b0 b1 b2 b3).toNat, rest)
  | _ => .error .underrunFixed32

def readFixed64 : Bytes → Except Error (Nat × Bytes)
  | b0 :: b1 :: b2 :: b3 :: b4 :: b5 :: b6 :: b7 :: rest =>
    let lo := (joinFixed32 b0 b1 b2 b3).toNat
    let hi := (joinFixed32 b4 b5 b6 b7).toNat
    .ok ((hi <<< 32) ||| lo, rest)
  | _ => .error .underrunFixed64

/-- A varint length and as many bytes. -/
def readSlice (overflow : Error) (bytes : Bytes) : Except Error (Bytes × Bytes) := do
  let (len, rest) ← readVarint bytes
  let count := roundTo 53 len
  if rest.length < count then .error overflow else .ok (rest.take count, rest.drop count)

section

variable (env : Env)

/-- `schemas[field.nested!]`. -/
def nestedSchema (field : FieldDef) : Except Error Schema :=
  let name := field.nested.getD (ascii "undefined")
  match env.schemas.lookup name with
  | some schema => .ok schema
  | none =>
    if name ∈ inheritedNames then .error .typeError else .error (.nestedNotRegistered name)

/-- The recursive call of `decode`. -/
abbrev Decoder := Bytes → Schema → Except Error Props

/-- A 64-bit pattern of a `double` is converted as an integer, not reinterpreted, and so is that
    of a `float`. -/
def readScalar (decodeNested : Decoder) (field : FieldDef)
    (bytes : Bytes) : Except Error (Value × Bytes) :=
  match field.type with
  | .int32 | .uint32 | .enum => do
      let (v, rest) ← readVarint bytes
      .ok (.number (toNumber v), rest)
  | .sint32 => do
      let (v, rest) ← readVarint bytes
      .ok (.number (zigzagDecode32 v), rest)
  | .int64 | .uint64 => do
      let (v, rest) ← readVarint bytes
      .ok (.bigint v, rest)
  | .sint64 => do
      let (v, rest) ← readVarint bytes
      .ok (.bigint (zigzagDecode64 v), rest)
  | .bool => do
      let (v, rest) ← readVarint bytes
      .ok (.boolean (v ≠ 0), rest)
  | .double => do
      let (v, rest) ← readFixed64 bytes
      .ok (.number (toNumber v), rest)
  | .float => do
      let (num, rest) ← readFixed32 bytes
      .ok (.number (roundTo 24 num), rest)
  | .fixed32 | .sfixed32 => do
      let (num, rest) ← readFixed32 bytes
      .ok (.number num, rest)
  | .fixed64 | .sfixed64 => do
      let (v, rest) ← readFixed64 bytes
      .ok (.bigint v, rest)
  | .string => do
      let (content, rest) ← readSlice .stringOverflow bytes
      .ok (.string (env.textDecode content), rest)
  | .bytes => do
      let (content, rest) ← readSlice .stringOverflow bytes
      .ok (.bytes content, rest)
  | .message => do
      let (content, rest) ← readSlice .nestedOverflow bytes
      let schema ← nestedSchema env field
      let props ← decodeNested content schema
      .ok (.object props, rest)
  | .unknown => .error .unsupportedType

/-- No test against the end of the buffer. -/
def skipField (bytes : Bytes) (wireType : Nat) : Except Error Bytes :=
  match wireType with
  | 0 => do
      let (_, rest) ← readVarint bytes
      .ok rest
  | 1 => .ok (bytes.drop 8)
  | 2 => do
      let (len, rest) ← readVarint bytes
      .ok (rest.drop (roundTo 53 len))
  | 5 => .ok (bytes.drop 4)
  | _ => .error (.unknownWireType wireType)

/-- Lines 150 to 155: items are read while the offset is below the end of the block, that
    is, while more than `after` bytes are left. An item may reach beyond it. -/
def packedLoop (decodeNested : Decoder) (field : FieldDef)
    (after : Nat) : Nat → Bytes → Props → Except Error (Bytes × Props)
  | 0, bytes, obj => if after < bytes.length then .error .exhausted else .ok (bytes, obj)
  | fuel + 1, bytes, obj =>
    if after < bytes.length then do
      let (val, rest) ← readScalar env decodeNested field bytes
      let obj ← pushProperty env obj field.name val
      packedLoop decodeNested field after fuel rest obj
    else .ok (bytes, obj)

/-- Lines 147 to 155. -/
def decodePacked (decodeNested : Decoder) (tag : Nat)
    (field : FieldDef) (bytes : Bytes) (obj : Props) : Except Error (Bytes × Props) := do
  let (len, rest) ← readVarint bytes
  if rest.length < roundTo 53 len then .error (.packedOverflow tag)
  else packedLoop env decodeNested field (rest.length - roundTo 53 len) rest.length rest obj

/-- Lines 162 to 167. -/
def storeValue (field : FieldDef) (obj : Props) (value : Value) : Except Error Props :=
  if field.flags.repeated then pushProperty env obj field.name value
  else setProperty env obj field.name value

/-- Lines 160 to 167. -/
def decodeSingle (decodeNested : Decoder) (field : FieldDef)
    (bytes : Bytes) (obj : Props) : Except Error (Bytes × Props) := do
  let (val, rest) ← readScalar env decodeNested field bytes
  let obj ← storeValue env field obj val
  .ok (rest, obj)

/-- One turn of the loop of `decode`. -/
def decodeField (decodeNested : Decoder) (schema : Schema)
    (bytes : Bytes) (obj : Props) : Except Error (Bytes × Props) := do
  let (key, rest) ← readVarint bytes
  let tag := roundTo 53 (key >>> 3)
  let wireType := key &&& 7
  match schema.fieldsByTag.lookup tag with
  | none => do
      let rest ← skipField rest wireType
      .ok (rest, obj)
  | some field =>
    if field.flags.packed ∧ wireType = 2 then decodePacked env decodeNested tag field rest obj
    else decodeSingle env decodeNested field rest obj

/-- Lines 172 to 178. -/
def populateField (schemaName : Bytes) (obj : Props) (entry : Nat × FieldDef) :
    Except Error Props :=
  match getProperty env obj entry.2.name with
  | .undefined =>
    if entry.2.flags.required then .error (.requiredMissing entry.2.name schemaName)
    else
      match entry.2.default with
      | .undefined => .ok obj
      | value => setProperty env obj entry.2.name value
  | _ => .ok obj

/-- `decode`; `depth` bounds the nesting that the stack allows. -/
def decode : (depth : Nat) → Bytes → Schema → Except Error Props
  | 0, _, _ => .error .depth
  | depth + 1, bytes, schema => do
      let obj ← drainAll .exhausted (decodeField env (decode depth) schema) bytes []
      schema.fieldsByTag.foldlM (populateField env schema.name) obj

end

/-! ### Errors and progress

Each turn of a loop consumes something, so the budgets of iterations suffice. -/

/-- The decoder does not run out of anything: an error is one that it throws itself. -/
abbrev Own (post : α → Prop) (result : Except Error α) : Prop :=
  Ends (fun error => error ≠ .exhausted ∧ error ≠ .depth) post result

/-- The budget of iterations is not what ends the computation. -/
abbrev Proper (post : α → Prop) (result : Except Error α) : Prop :=
  Ends (fun error => error ≠ .exhausted) post result

theorem Own.proper {post : α → Prop} {result : Except Error α} (hown : Own post result) :
    Proper post result := hown.weaken fun _ hne => hne.1

/-- What is left is shorter, unless there was nothing to begin with. -/
abbrev Shorter (bytes rest : Bytes) : Prop :=
  rest.length ≤ bytes.length ∧ (bytes ≠ [] → rest.length < bytes.length)

theorem Shorter.trans {bytes middle rest : Bytes} (hfirst : Shorter bytes middle)
    (hsecond : rest.length ≤ middle.length) : Shorter bytes rest :=
  ⟨hsecond.trans hfirst.1, fun hne => hsecond.trans_lt (hfirst.2 hne)⟩

theorem readVarintLoop_own (iterations : Nat) (bytes : Bytes) (shift result : Nat) :
    Own (fun out => Shorter bytes out.2) (readVarintLoop iterations bytes shift result) := by
  induction iterations generalizing bytes shift result with
  | zero => simp [readVarintLoop, Ends]
  | succ iterations ih =>
    rcases bytes with _ | ⟨byte, rest⟩
    · exact ⟨le_rfl, fun hne => absurd rfl hne⟩
    · unfold readVarintLoop
      split
      · exact ⟨Nat.le_succ _, fun _ => Nat.lt_succ_self _⟩
      · refine (ih rest _ _).mono fun out hout => ?_
        exact ⟨hout.1.trans (Nat.le_succ _), fun _ => Nat.lt_succ_of_le hout.1⟩

theorem readVarint_own (bytes : Bytes) :
    Own (fun out => Shorter bytes out.2) (readVarint bytes) :=
  readVarintLoop_own 11 bytes 0 0

theorem readFixed32_own (bytes : Bytes) :
    Own (fun out => Shorter bytes out.2) (readFixed32 bytes) := by
  unfold readFixed32
  split
  · simp only [Ends, Shorter, List.length_cons]
    omega
  · simp [Ends]

theorem readFixed64_own (bytes : Bytes) :
    Own (fun out => Shorter bytes out.2) (readFixed64 bytes) := by
  unfold readFixed64
  split
  · simp only [Ends, Shorter, List.length_cons]
    omega
  · simp [Ends]

theorem readSlice_own {overflow : Error} (hoverflow : overflow ≠ .exhausted ∧ overflow ≠ .depth)
    (bytes : Bytes) : Own (fun out => Shorter bytes out.2) (readSlice overflow bytes) := by
  refine (readVarint_own bytes).bind fun out hout => ?_
  dsimp only
  split
  · exact hoverflow
  · exact hout.trans (by rw [List.length_drop]; exact Nat.sub_le _ _)

theorem nestedSchema_own (env : Env) (field : FieldDef) :
    Own (fun _ => True) (nestedSchema env field) := by
  simp only [nestedSchema]
  split
  · trivial
  · split <;> simp [Ends]

theorem skipField_own (bytes : Bytes) (wireType : Nat) :
    Own (fun rest => rest.length ≤ bytes.length) (skipField bytes wireType) := by
  have hdrop : ∀ (rest : Bytes) count, (rest.drop count).length ≤ rest.length := by
    intro rest count
    rw [List.length_drop]
    exact Nat.sub_le _ _
  unfold skipField
  split
  · exact (readVarint_own bytes).bind fun _ hout => hout.1
  · exact hdrop bytes 8
  · exact (readVarint_own bytes).bind fun out hout => (hdrop out.2 _).trans hout.1
  · exact hdrop bytes 4
  · simp [Ends]

section

variable (env : Env)

theorem orTypeError_own (obj : Option Props) : Own (fun _ => True) (orTypeError obj) := by
  cases obj with
  | none => simp [orTypeError, Ends]
  | some obj => trivial

theorem setProperty_own (obj : Props) (name : Bytes) (value : Value) :
    Own (fun _ => True) (setProperty env obj name value) := by
  unfold setProperty
  split
  · exact orTypeError_own _
  · split <;> trivial

theorem pushProperty_own (obj : Props) (name : Bytes) (value : Value) :
    Own (fun _ => True) (pushProperty env obj name value) := by
  have hready : Own (fun _ => True) (ensureArray env obj name) := by
    unfold ensureArray
    split
    · trivial
    · exact setProperty_own env _ _ _
  refine hready.bind fun obj _ => ?_
  unfold callPush
  split
  · trivial
  · exact orTypeError_own _
  · split
    · exact orTypeError_own _
    · simp [Ends]
  · simp [Ends]

theorem storeValue_own (field : FieldDef) (obj : Props) (value : Value) :
    Own (fun _ => True) (storeValue env field obj value) := by
  unfold storeValue
  split
  · exact pushProperty_own env _ _ _
  · exact setProperty_own env _ _ _

theorem populateField_own (schemaName : Bytes) (obj : Props) (entry : Nat × FieldDef) :
    Own (fun _ => True) (populateField env schemaName obj entry) := by
  unfold populateField
  split
  · split
    · simp [Ends]
    · split
      · trivial
      · exact setProperty_own env _ _ _
  · trivial

variable {decodeNested : Decoder}
  (hnested : ∀ bytes schema, Proper (fun _ => True) (decodeNested bytes schema))

include hnested

theorem readScalar_proper (field : FieldDef) (bytes : Bytes) :
    Proper (fun out => Shorter bytes out.2) (readScalar env decodeNested field bytes) := by
  have hvarint := (readVarint_own bytes).proper
  have hfixed32 := (readFixed32_own bytes).proper
  have hfixed64 := (readFixed64_own bytes).proper
  have hstring : Proper (fun out => Shorter bytes out.2) (readSlice .stringOverflow bytes) :=
    (readSlice_own (by simp) bytes).proper
  have hmessage : Proper (fun out => Shorter bytes out.2) (readSlice .nestedOverflow bytes) :=
    (readSlice_own (by simp) bytes).proper
  unfold readScalar
  cases field.type with
  | unknown => exact nofun
  | double | fixed64 | sfixed64 => exact hfixed64.bind fun _ hout => hout
  | float | fixed32 | sfixed32 => exact hfixed32.bind fun _ hout => hout
  | int64 | uint64 | int32 | uint32 | sint32 | sint64 | bool | enum =>
    exact hvarint.bind fun _ hout => hout
  | string | bytes => exact hstring.bind fun _ hout => hout
  | message =>
    refine hmessage.bind fun out hout => ?_
    refine (nestedSchema_own env field).proper.bind fun schema _ => ?_
    exact (hnested out.1 schema).bind fun _ _ => hout

theorem packedLoop_proper (field : FieldDef) (after fuel : Nat) (bytes : Bytes) (obj : Props)
    (hfuel : bytes.length ≤ fuel) :
    Proper (fun out => out.1.length ≤ bytes.length)
      (packedLoop env decodeNested field after fuel bytes obj) := by
  induction fuel generalizing bytes obj with
  | zero =>
    rw [packedLoop, if_neg (by omega)]
    exact le_rfl
  | succ fuel ih =>
    unfold packedLoop
    split
    · rename_i hmore
      refine (readScalar_proper env hnested field bytes).bind fun out hout => ?_
      have hless := hout.2 (List.ne_nil_of_length_pos (Nat.zero_lt_of_lt hmore))
      refine (pushProperty_own env obj field.name out.1).proper.bind fun obj _ => ?_
      exact (ih out.2 obj (by omega)).mono fun final hfinal => hfinal.trans hout.1
    · exact le_rfl

theorem decodeField_proper (schema : Schema) (bytes : Bytes) (obj : Props) :
    Proper (fun out => Shorter bytes out.1) (decodeField env decodeNested schema bytes obj) := by
  refine (readVarint_own bytes).proper.bind fun key hkey => ?_
  dsimp only
  split
  · exact (skipField_own _ _).proper.bind fun rest hrest => hkey.trans hrest
  · rename_i field _
    split
    · refine (readVarint_own key.2).proper.bind fun len hlen => ?_
      dsimp only
      split
      · exact nofun
      · exact (packedLoop_proper env hnested _ _ _ _ _ le_rfl).mono fun out hout =>
          hkey.trans (hout.trans hlen.1)
    · refine (readScalar_proper env hnested field key.2).bind fun out hout => ?_
      exact (storeValue_own env field obj out.1).proper.bind fun _ _ => hkey.trans hout.1

theorem decodeField_shrinks (schema : Schema) :
    Shrinks (guarded .exhausted (decodeField env decodeNested schema)) := by
  intro bytes obj rest obj' hstep
  rcases bytes with _ | ⟨byte, bytes⟩
  · cases hstep
  · exact ((decodeField_proper env hnested schema _ obj).ok hstep).2 (List.cons_ne_nil _ _)

end

/-- **The decoder terminates**: it returns or throws before a loop has used up its budget. -/
theorem decode_proper (env : Env) (depth : Nat) (bytes : Bytes) (schema : Schema) :
    Proper (fun _ => True) (decode env depth bytes schema) := by
  induction depth generalizing bytes schema with
  | zero => exact nofun
  | succ depth ih =>
    have hnested : ∀ bytes schema, Proper (fun _ => True) (decode env depth bytes schema) := ih
    have hloop : Proper (fun _ => True)
        (drainAll .exhausted (decodeField env (decode env depth) schema) bytes []) := by
      rw [← drainAll_guarded]
      refine ends_drainAll (decodeField_shrinks env hnested schema)
        (fun input obj hinput => ?_) _ _
      rw [guarded_of_ne hinput]
      exact (decodeField_proper env hnested schema input obj).mono fun _ _ => trivial
    refine hloop.bind fun obj _ => ?_
    exact Ends.foldlM (fun _ _ => True)
      (fun _ entry obj _ => (populateField_own env _ obj entry).proper) _ trivial

end QuicproAsync.Iibin.Js

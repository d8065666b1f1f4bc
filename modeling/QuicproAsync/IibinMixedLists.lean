import QuicproAsync.IibinKept

/-!
# Packed blocks and single elements of one field

A packed field may come as packed blocks, as single elements, or as both. The two kinds of
occurrence are handled by different branches of `decode_message_internal`, each of which
looks for the list and makes one if there is none. As far as values go, the list ends up
with the elements of all occurrences in wire order. The branch for single elements gives
the array back that it makes, so that the list is there at the end only if the packed
branch has made it.
-/

namespace QuicproAsync.Iibin

open Php Fallible ScanLoop

/-! ### Occurrences -/

/-- The bytes are one element of the type, and `item` is its value. -/
def Element (host : Host) (type : FieldType) (bytes : Bytes) (item : Zval) : Prop :=
  match Wire.layout type with
  | some .varint => ∃ value, Wire.varint bytes = some (value, []) ∧ item = varintZval type value
  | some .fixed32 =>
    ∃ value, Wire.fixed32 bytes = some (value, []) ∧ item = fixed32Zval host type value
  | some .fixed64 => ∃ value, Wire.fixed64 bytes = some (value, []) ∧ item = fixed64Zval type value
  | some .delimited | none => False

/-- The bytes are a key of the field with this wire type. -/
def FieldDef.IsKey (field : FieldDef) (wireType : BitVec 32) (bytes : Bytes) : Prop :=
  ∃ key, Wire.varint bytes = some (key, []) ∧ keyTag key = field.tag ∧ keyWireType key = wireType

inductive Occurrence where
  | single (key element : Bytes) (item : Zval)
  | block (key length : Bytes) (elements : List (Bytes × Zval))

def Occurrence.bytes : Occurrence → Bytes
  | .single key element _ => key ++ element
  | .block key length elements => key ++ (length ++ elements.flatMap Prod.fst)

def Occurrence.items : Occurrence → List Zval
  | .single _ _ item => [item]
  | .block _ _ elements => elements.map Prod.snd

def Occurrence.wireType (field : FieldDef) : Occurrence → BitVec 32
  | .single _ _ _ => calculateFieldWireType field.type false
  | .block _ _ _ => wiretypeLengthDelim

def Occurrence.WellFormed (host : Host) (field : FieldDef) : Occurrence → Prop
  | .single key element item =>
    field.IsKey (calculateFieldWireType field.type false) key ∧
      Element host field.type element item
  | .block key length elements =>
    field.IsKey wiretypeLengthDelim key ∧
      (∃ len, Wire.varint length = some (len, []) ∧
        len.toNat = (elements.flatMap Prod.fst).length) ∧
      ∀ element ∈ elements, Element host field.type element.1 element.2

/-- The table in which the field has the given items and nothing else is stored. -/
def filledWith (name : Bytes) (items : List Zval) : HashTable :=
  [(.str name, .array (listTable items))]

/-- What the occurrences are to leave behind. -/
def concatenated (name : Bytes) : List Occurrence → HashTable
  | [] => []
  | first :: rest => filledWith name ((first :: rest).flatMap Occurrence.items)

/-- The table has these items of the field and nothing else; no items may also mean no
    entry. -/
structure HasItems (name : Bytes) (entries : HashTable) (items : List Zval) : Prop where
  sub : subArray entries name = .array (listTable items)
  assign : ∀ value, OrderedMap.assign (.str name) value entries = [(.str name, value)]

variable {field : FieldDef} {occurrence : Occurrence}

theorem HasItems.empty (name : Bytes) : HasItems name [] [] :=
  ⟨rfl, fun _ => rfl⟩

theorem HasItems.filledWith (name : Bytes) (items : List Zval) :
    HasItems name (filledWith name items) items := by
  constructor
  · rw [subArray, Iibin.filledWith, List.lookup_cons_self, Option.getD_some]
  · intro value
    rw [Iibin.filledWith, OrderedMap.assign, if_pos rfl]

theorem elementWireType_ne {type : FieldType} (hpackable : isPackable type = true) :
    calculateFieldWireType type false ≠ wiretypeLengthDelim := by
  revert hpackable
  cases type <;> decide

/-! ### The meaning of the bytes -/

section

variable {ctx : WireContext} {nested : Wire.MessageReader}

theorem Element.value_eq {bytes : Bytes} {item : Zval}
    (helement : Element ctx.host field.type bytes item) (hpacked : field.flags.packed = true)
    (wireType : BitVec 32) (rest : Bytes) :
    Wire.value ctx nested field wireType (bytes ++ rest) = .ok (rest, item) := by
  have hpass : ¬ (wireType ≠ field.wireType ∧ field.flags.packed = false) := by
    simp [hpacked]
  rw [Wire.value, if_neg hpass]
  revert helement
  unfold Element
  rcases Wire.layout field.type with _ | (_ | _ | _ | _)
  · exact False.elim
  · rintro ⟨value, hread, rfl⟩
    simp only [(Wire.varint_consumes hread).2 rest, Wire.readOrFail, List.nil_append]
  · rintro ⟨value, hread, rfl⟩
    simp only [(Wire.fixed32_consumes hread).2 rest, Wire.readOrFail, List.nil_append]
  · rintro ⟨value, hread, rfl⟩
    simp only [(Wire.fixed64_consumes hread).2 rest, Wire.readOrFail, List.nil_append]
  · exact False.elim

theorem Element.ne_nil {host : Host} {type : FieldType} {bytes : Bytes} {item : Zval}
    (helement : Element host type bytes item) : bytes ≠ [] := by
  rintro rfl
  revert helement
  unfold Element
  rcases Wire.layout type with _ | (_ | _ | _ | _)
  · exact id
  · rintro ⟨value, hread, -⟩
    cases hread
  · rintro ⟨value, hread, -⟩
    cases hread
  · rintro ⟨value, hread, -⟩
    cases hread
  · exact id

/-- The items of a block, appended to those that are there. -/
theorem drain_elements {elements : List (Bytes × Zval)}
    (helements : ∀ element ∈ elements, Element ctx.host field.type element.1 element.2)
    (hpacked : field.flags.packed = true) (done : List Zval) :
    drainAll .overrun (Wire.packedItem ctx nested field) (elements.flatMap Prod.fst)
        (.array (listTable done)) =
      .ok (.array (listTable (done ++ elements.map Prod.snd))) := by
  induction elements generalizing done with
  | nil => rw [List.flatMap_nil, drainAll_nil, List.map_nil, List.append_nil]
  | cons element rest ih =>
    have hfirst := helements element List.mem_cons_self
    have hitem : Wire.packedItem ctx nested field
        (element.1 ++ rest.flatMap Prod.fst) (.array (listTable done)) =
          .ok (rest.flatMap Prod.fst, .array (listTable (done ++ [element.2]))) := by
      simp only [Wire.packedItem, hfirst.value_eq hpacked, bind, Except.bind, addNextIndexZval,
        nextIndexInsert_listTable, Wire.lift]
    rw [List.flatMap_cons, drainAll_step (Wire.packedItem_shrinks ctx nested field)
      (by simp [hfirst.ne_nil]) hitem, ih fun other hother => helements other
      (List.mem_cons_of_mem _ hother), List.append_assoc, List.map_cons, List.singleton_append]

/-- What an occurrence does to the table. -/
theorem Occurrence.field_eq {schema : CompiledSchema}
    (hformed : occurrence.WellFormed ctx.host field)
    (hknown : schema.fieldsByTag.lookup field.tag = some field) (hreadable : field.tag ≠ 0)
    (htyped : field.WellTyped ctx.registry) (hpacked : field.flags.packed = true)
    {entries : HashTable} {done : List Zval} (hdone : HasItems field.nameInPhp entries done)
    (rest : Bytes) :
    Wire.field ctx nested schema (occurrence.bytes ++ rest) (.array entries) =
      .ok (rest, .array (filledWith field.nameInPhp (done ++ occurrence.items))) := by
  obtain ⟨hrepeated, hpackable⟩ := htyped.packed hpacked
  cases occurrence with
  | single keyBytes element item =>
    obtain ⟨⟨key, hkey, htag, hwire⟩, helement⟩ := hformed
    have hsingle : ¬ (field.flags.packed = true ∧ keyWireType key = wiretypeLengthDelim) := by
      rintro ⟨-, hdelimited⟩
      exact elementWireType_ne hpackable (hwire.symm.trans hdelimited)
    rw [Occurrence.bytes, List.append_assoc]
    simp only [Wire.field, (Wire.varint_consumes hkey).2 (element ++ rest), List.nil_append,
      Wire.fieldBody, htag, if_neg hreadable, hknown, if_neg hsingle, Wire.singleField,
      helement.value_eq hpacked, bind, Except.bind, storeValue, hrepeated, if_true, hdone.sub,
      addNextIndexZval, nextIndexInsert_listTable, hdone.assign, Wire.lift]
    rfl
  | block keyBytes length elements =>
    obtain ⟨⟨key, hkey, htag, hwire⟩, ⟨len, hlen, hlength⟩, helements⟩ := hformed
    have hblock : Wire.block .silent (length ++ (elements.flatMap Prod.fst ++ rest)) =
        .ok (elements.flatMap Prod.fst, rest) := by
      simp only [Wire.block, (Wire.varint_consumes hlen).2, List.nil_append, hlength,
        List.length_append, Nat.not_lt.mpr (Nat.le_add_right _ _), if_false,
        List.take_left', List.drop_left']
    rw [Occurrence.bytes, List.append_assoc, List.append_assoc]
    simp only [Wire.field, (Wire.varint_consumes hkey).2, List.nil_append, Wire.fieldBody, htag,
      if_neg hreadable, hknown, hpacked, hwire, and_self, if_true, Wire.packedBlock, hblock, bind,
      Except.bind, returnArray, Wire.lift, hdone.sub, drain_elements helements hpacked,
      hdone.assign]
    rfl

end

theorem Occurrence.bytes_ne_nil {host : Host} (hformed : occurrence.WellFormed host field) :
    occurrence.bytes ≠ [] := by
  have hkey : ∀ {wireType bytes}, field.IsKey wireType bytes → bytes ≠ [] := by
    rintro wireType bytes ⟨key, hread, -⟩ rfl
    cases hread
  cases occurrence with
  | single key element item =>
    rw [Occurrence.bytes, Ne, List.append_eq_nil_iff]
    exact fun hnil => hkey hformed.1 hnil.1
  | block key length elements =>
    rw [Occurrence.bytes, Ne, List.append_eq_nil_iff]
    exact fun hnil => hkey hformed.1 hnil.1

/-- The key of an occurrence is read as one of the field. -/
theorem Occurrence.read_key {host : Host} (hformed : occurrence.WellFormed host field)
    (rest : Bytes) :
    ∃ key after, Wire.varint (occurrence.bytes ++ rest) = some (key, after) ∧
      keyTag key = field.tag ∧ keyWireType key = occurrence.wireType field := by
  cases occurrence with
  | single keyBytes element item =>
    obtain ⟨⟨key, hkey, htag, hwire⟩, -⟩ := hformed
    rw [Occurrence.bytes, List.append_assoc, (Wire.varint_consumes hkey).2]
    exact ⟨key, _, rfl, htag, hwire⟩
  | block keyBytes length elements =>
    obtain ⟨⟨key, hkey, htag, hwire⟩, -⟩ := hformed
    rw [Occurrence.bytes, List.append_assoc, (Wire.varint_consumes hkey).2]
    exact ⟨key, _, rfl, htag, hwire⟩

/-! ### Whole runs -/

/-- The first occurrence is a single element. -/
def singleFirst : List Occurrence → Bool
  | .single _ _ _ :: _ => true
  | _ => false

section

variable {wire : WireContext} {schema : CompiledSchema}
  (hformed : schema.WellFormed wire.registry) (hfield : field ∈ schema.orderedFields)
  (hreadable : field.tag ≠ 0) (hpacked : field.flags.packed = true)

include hformed hfield hreadable hpacked

/-- A turn gives its list back if it reads a single element and there is no list. -/
theorem Occurrence.makesList_eq (hoccurrence : occurrence.WellFormed wire.host field)
    (rest : Bytes) (entries : HashTable) :
    Wire.makesList schema (occurrence.bytes ++ rest) (.array entries) =
      (singleFirst [occurrence] && (entries.lookup (.str field.nameInPhp)).isNone) := by
  obtain ⟨hrepeated, hpackable⟩ := (hformed.fields field hfield).packed hpacked
  obtain ⟨key, after, hread, htag, hwire⟩ := Occurrence.read_key hoccurrence rest
  simp only [Wire.makesList, hread, startsList, htag, (hformed.byTag field.tag field).mpr
    ⟨hfield, rfl⟩, decide_eq_true hreadable, hrepeated, hpacked, hwire, Bool.true_and]
  cases occurrence with
  | single key element item =>
    rw [Occurrence.wireType, decide_eq_false (elementWireType_ne hpackable)]
    rfl
  | block key length elements =>
    rw [Occurrence.wireType, decide_eq_true rfl]
    rfl

variable {depth : Nat}

/-- One turn of the stopped decoder works off one occurrence, if a list is there or is made
    by a block. -/
theorem Occurrence.keptField_eq (hoccurrence : occurrence.WellFormed wire.host field)
    {entries : HashTable} {done : List Zval} (hdone : HasItems field.nameInPhp entries done)
    (hkept : (singleFirst [occurrence] && (entries.lookup (.str field.nameInPhp)).isNone) = false)
    (rest : Bytes) :
    Wire.keptField wire (Wire.message wire depth) schema (occurrence.bytes ++ rest)
        (.array entries) =
      .ok (rest, .array (filledWith field.nameInPhp (done ++ occurrence.items))) := by
  have hknown := (hformed.byTag field.tag field).mpr ⟨hfield, rfl⟩
  refine Wire.keptField_ok.mpr ⟨?_, ?_, Occurrence.field_eq hoccurrence hknown hreadable
    (hformed.fields field hfield) hpacked hdone rest⟩
  · rw [Occurrence.makesList_eq hformed hfield hreadable hpacked hoccurrence, hkept]
  · obtain ⟨key, after, hread, htag, -⟩ := Occurrence.read_key hoccurrence rest
    simp [Wire.readsPointer, hread, htag, hknown,
      layout_of_isPackable ((hformed.fields field hfield).packed hpacked).2]

omit hformed hfield hreadable hpacked in
/-- A loop the first turn of which makes the list and each of whose turns works off one
    occurrence. -/
theorem drain_occurrences {step : Bytes → Zval → Wire.Answer (Bytes × Zval)}
    (hshrinks : Shrinks step) {occurrences : List Occurrence}
    (hoccurrences : ∀ occurrence ∈ occurrences, occurrence.WellFormed wire.host field)
    (hfirst : ∀ first ∈ occurrences.head?, ∀ rest, step (first.bytes ++ rest) (.array []) =
      .ok (rest, .array (filledWith field.nameInPhp first.items)))
    (hstep : ∀ occurrence ∈ occurrences, ∀ done rest,
      step (occurrence.bytes ++ rest) (.array (filledWith field.nameInPhp done)) =
        .ok (rest, .array (filledWith field.nameInPhp (done ++ occurrence.items)))) :
    drainAll .overrun step (occurrences.flatMap Occurrence.bytes) (.array []) =
      .ok (.array (concatenated field.nameInPhp occurrences)) := by
  have hlater : ∀ rest : List Occurrence, (∀ occurrence ∈ rest, occurrence ∈ occurrences) →
      ∀ done, drainAll .overrun step (rest.flatMap Occurrence.bytes)
        (.array (filledWith field.nameInPhp done)) =
          .ok (.array (filledWith field.nameInPhp (done ++ rest.flatMap Occurrence.items))) := by
    intro rest hsub
    induction rest with
    | nil =>
      intro done
      rw [List.flatMap_nil, drainAll_nil, List.flatMap_nil, List.append_nil]
    | cons occurrence rest ih =>
      intro done
      have hmem := hsub occurrence List.mem_cons_self
      have hne := Occurrence.bytes_ne_nil (hoccurrences occurrence hmem)
      rw [List.flatMap_cons,
        drainAll_step hshrinks (by simp [hne]) (hstep occurrence hmem done _),
        ih fun other hother => hsub other (List.mem_cons_of_mem _ hother), List.flatMap_cons,
        List.append_assoc]
  cases occurrences with
  | nil => exact drainAll_nil _
  | cons first rest =>
    have hne := Occurrence.bytes_ne_nil (hoccurrences first List.mem_cons_self)
    rw [List.flatMap_cons, drainAll_step hshrinks (by simp [hne]) (hfirst first rfl _),
      hlater rest (fun other hother => List.mem_cons_of_mem _ hother) first.items]
    rfl

variable {occurrences : List Occurrence}
  (hoccurrences : ∀ occurrence ∈ occurrences, occurrence.WellFormed wire.host field)

include hoccurrences

/-- **Mixed lists, as values.** Blocks and single elements in any order leave the list of all
    their elements, in wire order. -/
theorem message_occurrences :
    Wire.message wire (depth + 1) schema (occurrences.flatMap Occurrence.bytes) (.array []) =
      .ok (.array (concatenated field.nameInPhp occurrences)) := by
  have hturn : ∀ occurrence ∈ occurrences, ∀ entries done,
      HasItems field.nameInPhp entries done → ∀ rest, Wire.field wire (Wire.message wire depth)
        schema (occurrence.bytes ++ rest) (.array entries) =
          .ok (rest, .array (filledWith field.nameInPhp (done ++ occurrence.items))) :=
    fun occurrence hmem _ _ hdone rest => Occurrence.field_eq (hoccurrences occurrence hmem)
      ((hformed.byTag field.tag field).mpr ⟨hfield, rfl⟩) hreadable (hformed.fields field hfield)
      hpacked hdone rest
  exact drain_occurrences (Wire.field_shrinks _ _ schema) hoccurrences
    (fun first hfirst => hturn first (List.mem_of_mem_head? hfirst) [] [] (.empty _))
    (fun occurrence hmem done => hturn occurrence hmem _ done (.filledWith _ done))

/-- The stopped decoder gets through if a block makes the list. -/
theorem keptMessage_occurrences (hfirst : singleFirst occurrences = false) :
    Wire.keptMessage wire depth schema (occurrences.flatMap Occurrence.bytes) (.array []) =
      .ok (.array (concatenated field.nameInPhp occurrences)) := by
  refine drain_occurrences Wire.keptField_shrinks hoccurrences (fun first hhead rest => ?_)
    (fun occurrence hmem done rest => ?_)
  · have hblock : singleFirst [first] = false := by
      obtain ⟨others, rfl⟩ := List.head?_eq_some_iff.mp hhead
      cases first with
      | single key element item => cases hfirst
      | block key length elements => rfl
    exact Occurrence.keptField_eq hformed hfield hreadable hpacked
      (hoccurrences first (List.mem_of_mem_head? hhead)) (.empty _)
      (by rw [hblock, Bool.false_and]) rest
  · refine Occurrence.keptField_eq hformed hfield hreadable hpacked (hoccurrences occurrence hmem)
      (.filledWith _ done) ?_ rest
    rw [filledWith, List.lookup_cons_self, Option.isNone_some, Bool.and_false]

variable {buffer : Buffer} {fuel : Nat} (hfuel : buffer.bytes.length ≤ fuel)
  (hbytes : buffer.bytes = occurrences.flatMap Occurrence.bytes)

include hfuel hbytes

/-- **Mixed lists and lifetimes.** The list is there at the end exactly if the first
    occurrence is not a single element. -/
theorem decodeMessageTracked_occurrences :
    decodeMessageTracked ⟨wire, buffer.memory, fuel⟩ (depth + 1) buffer.base buffer.stop schema
        (.ofEntries []) =
      .ok (buffer.stop, .ofEntries (concatenated field.nameInPhp occurrences)) ↔
    singleFirst occurrences = false := by
  constructor
  · intro hok
    rcases occurrences with _ | ⟨_ | _, rest⟩
    · rfl
    · have hhere := hoccurrences _ List.mem_cons_self
      have hhigh := buffer.high
      have hwindow := buffer.window_eq.trans hbytes
      rw [List.flatMap_cons] at hwindow
      have hlt : buffer.base < buffer.stop := by
        by_contra hnot
        rw [window_of_le buffer.memory (by omega)] at hwindow
        exact Occurrence.bytes_ne_nil hhere (List.append_eq_nil_iff.mp hwindow.symm).1
      -- the first turn leaves an entry that dangles, and so does the run
      exfalso
      rw [decodeMessageTracked] at hok
      obtain ⟨less, q, filled, hturn, hrest⟩ := whileBelow_first hlt hok
      have hmakes : Wire.makesList schema (window buffer.memory buffer.base buffer.stop)
          (.array []) = true := by
        rw [hwindow, Occurrence.makesList_eq hformed hfield hreadable hpacked hhere]
        rfl
      obtain ⟨key, hdangling⟩ := decodeFieldTracked_makes (show buffer.stop + 8 < 2 ^ 64 from hhigh)
        (Filling.ofEntries_shows []) hmakes hturn
      exact (Filling.intact_ofEntries _).lookup (decodeLoopTracked_dangling hdangling hrest) rfl
    · rfl
  · intro hfirst
    have hkept : Wire.keptMessage wire depth schema buffer.bytes (.array []) =
        .ok (.array (concatenated field.nameInPhp occurrences)) := by
      rw [hbytes]
      exact keptMessage_occurrences hformed hfield hreadable hpacked hoccurrences hfirst
    obtain ⟨entries, hentries, hrun⟩ := decodeMessageTracked_kept hfuel [] hkept
    cases hentries
    exact hrun

end

/-- **Mixed lists.** Well-formed occurrences of a packed field of a registered schema decode to
    the concatenation of their elements as far as values go; the entry of the result still
    points to that list exactly if the first occurrence is not a single element. -/
theorem mixed_list_kept_iff (wire : WireContext)
    (hreach : Reachable (fun _ => True) wire.registry) {schemaName : Bytes}
    {schema : CompiledSchema}
    (hfound : getCompiledIibinSchemaInternal wire.registry schemaName = some schema)
    {field : FieldDef} (hfield : field ∈ schema.orderedFields) (hreadable : field.tag ≠ 0)
    (hpacked : field.flags.packed = true) {occurrences : List Occurrence}
    (hoccurrences : ∀ occurrence ∈ occurrences, occurrence.WellFormed wire.host field)
    {buffer : Buffer} (hbytes : buffer.bytes = occurrences.flatMap Occurrence.bytes) {fuel : Nat}
    (hfuel : buffer.bytes.length ≤ fuel) (depth : Nat) :
    decodeMessageInternal ⟨wire, buffer.memory, fuel⟩ (depth + 1) buffer.base buffer.stop schema
      (.array []) = .ok (buffer.stop, .array (concatenated field.nameInPhp occurrences)) ∧
    (decodeMessageTracked ⟨wire, buffer.memory, fuel⟩ (depth + 1) buffer.base buffer.stop schema
        (.ofEntries []) =
      .ok (buffer.stop, .ofEntries (concatenated field.nameInPhp occurrences)) ↔
      singleFirst occurrences = false) := by
  have hformed := hreach.layered.wellFormed hfound
  refine ⟨?_, decodeMessageTracked_occurrences hformed hfield hreadable hpacked hoccurrences hfuel
    hbytes⟩
  have hagrees := decodeMessageInternal_buffer buffer wire hfuel (depth + 1) schema (.array [])
  rw [hbytes, message_occurrences hformed hfield hreadable hpacked hoccurrences] at hagrees
  exact hagrees

/-- Two elements of a packed `int32`: first 5 in a block, then 7 on its own. -/
def blockThenSingle : List Occurrence :=
  [.block [0x0A] [0x01] [([0x05], .long 5)], .single [0x08] [0x07] (.long 7)]

/-- The same two elements the other way round. -/
def singleThenBlock : List Occurrence :=
  [.single [0x08] [0x07] (.long 7), .block [0x0A] [0x01] [([0x05], .long 5)]]

theorem elements_wellFormed (host : Host) (htype : field.type = .int32) (htag : field.tag = 1) :
    (Occurrence.block [0x0A] [0x01] [([0x05], .long 5)]).WellFormed host field ∧
      (Occurrence.single [0x08] [0x07] (.long 7)).WellFormed host field := by
  have helement : ∀ byte : Byte, Wire.varint [byte] = some (byte.setWidth 64, []) →
      Element host field.type [byte] (varintZval .int32 (byte.setWidth 64)) := by
    intro byte hread
    rw [Element, htype]
    exact ⟨_, hread, rfl⟩
  refine ⟨⟨⟨0x0A, rfl, ?_, rfl⟩, ⟨1, rfl, rfl⟩, ?_⟩, ⟨0x08, rfl, ?_, ?_⟩, helement 0x07 rfl⟩
  · rw [htag]
    rfl
  · intro element hmem
    rw [List.mem_singleton.mp hmem]
    exact helement 0x05 rfl
  · rw [htag]
    rfl
  · rw [htype]
    rfl

theorem mixed_list_kept :
    ∃ schema, getCompiledIibinSchemaInternal (oneSchema (fieldOptions 1 "repeated_int32" []))
        (ascii "P") = some schema ∧
      decodeMessageTracked
        ⟨arrayContext default (oneSchema (fieldOptions 1 "repeated_int32" [])),
          (Buffer.placed [0x0A, 0x01, 0x05, 0x08, 0x07] (by decide)).memory, 5⟩ 1 4096 4101 schema
        (.ofEntries []) =
          .ok (4101, .ofEntries (filledWith (ascii "x") [.long 5, .long 7])) := by
  have hreach : Reachable (fun _ => True) (oneSchema (fieldOptions 1 "repeated_int32" [])) :=
    (oneSchema_reachable _).weaken fun _ _ => trivial
  obtain ⟨schema, field, hfound, hfield, hpacked, htag, htype, hname⟩ : ∃ schema field,
      getCompiledIibinSchemaInternal (oneSchema (fieldOptions 1 "repeated_int32" [])) (ascii "P") =
        some schema ∧ field ∈ schema.orderedFields ∧ field.flags.packed = true ∧ field.tag = 1 ∧
      field.type = .int32 ∧ field.nameInPhp = ascii "x" :=
    ⟨_, _, rfl, List.mem_cons_self, rfl, rfl, rfl, rfl⟩
  obtain ⟨hblock, hsingle⟩ := elements_wellFormed default htype htag
  have hoccurrences : ∀ occurrence ∈ blockThenSingle, occurrence.WellFormed default field := by
    intro occurrence hmem
    rcases List.mem_cons.mp hmem with rfl | hmem
    · exact hblock
    · rw [List.mem_singleton.mp hmem]
      exact hsingle
  refine ⟨schema, hfound, ?_⟩
  rw [← hname]
  exact (mixed_list_kept_iff (arrayContext default _) hreach hfound hfield (by rw [htag]; decide)
    hpacked hoccurrences rfl (Nat.le_refl _) 0).2.mpr rfl

/-- With the single element first, the block appends to an array that has been given back. -/
theorem mixed_list_freed :
    ∃ schema field, getCompiledIibinSchemaInternal
        (oneSchema (fieldOptions 1 "repeated_int32" [])) (ascii "P") = some schema ∧
      field ∈ schema.orderedFields ∧ field.flags.packed = true ∧
      (∀ occurrence ∈ singleThenBlock, occurrence.WellFormed default field) ∧
      singleThenBlock.flatMap Occurrence.bytes = [0x08, 0x07, 0x0A, 0x01, 0x05] ∧
      decodeMessageTracked
        ⟨arrayContext default (oneSchema (fieldOptions 1 "repeated_int32" [])),
          (Buffer.placed [0x08, 0x07, 0x0A, 0x01, 0x05] (by decide)).memory, 5⟩ 1 4096 4101 schema
        (.ofEntries []) = .error .useAfterFree := by
  refine ⟨_, _, rfl, List.mem_cons_self, rfl, fun occurrence hmem => ?_, rfl, rfl⟩
  rcases List.mem_cons.mp hmem with rfl | hmem
  · exact (elements_wellFormed default rfl rfl).2
  · rw [List.mem_singleton.mp hmem]
    exact (elements_wellFormed default rfl rfl).1

end QuicproAsync.Iibin

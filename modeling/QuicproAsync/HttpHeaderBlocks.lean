import QuicproAsync.HttpClientHeaders

/-!
# Header blocks of the HTTP client

`parse_raw_headers_to_assoc_array` on a block of well-formed header lines. A line is read
back as its lower-cased name and its value, and the array that is built from the lines has one
entry for every name: the values given under it in any letter case, joined.

The names are those that PHP keeps as strings. A name that PHP reads as an integer is stored
under the integer and not found again, see `HttpClientHeaders`.
-/

namespace QuicproAsync.HttpClient

open Php OrderedMap

/-! ### Header lines -/

/-- Decimal digits, with a sign before them or without. -/
def isSignedDecimal (name : Bytes) : Bool :=
  let digits := if name.head? = some 0x2b#8 || name.head? = some 0x2d#8 then name.tail else name
  !digits.isEmpty && digits.all isDigit

/-- The parts of a header line: a name, blanks after the colon, and a value. -/
structure HeaderLine where
  name : Bytes
  blanks : Bytes
  value : Bytes
  named : name ≠ []
  nameBytes : ∀ byte ∈ name, byte ≠ colon ∧ byte ≠ cr ∧ byte ≠ lf ∧ byte ≠ 0#8
  textual : isSignedDecimal name = false
  allBlank : ∀ byte ∈ blanks, isBlank byte = true
  valueBytes : ∀ byte ∈ value, byte ≠ cr ∧ byte ≠ lf ∧ byte ≠ 0#8
  startsNonblank : ∀ byte ∈ value.head?, isBlank byte = false

def HeaderLine.content (line : HeaderLine) : Bytes :=
  line.name ++ colon :: (line.blanks ++ line.value)

/-- The lines, with CR LF after each. -/
def blockOf (lines : List HeaderLine) : Bytes := lines.flatMap fun line => line.content ++ crlf

def HeaderLine.lowerName (line : HeaderLine) : Bytes := line.name.map toLower

/-- The values that are given under a name in any letter case. -/
def valuesUnder (lowerName : Bytes) (lines : List HeaderLine) : List Bytes :=
  (lines.filter fun line => line.lowerName = lowerName).map HeaderLine.value

/-- What the array should hold: each lower-cased name once, with its values. -/
def joinedHeaders (lines : List HeaderLine) : HashTable :=
  (lines.map HeaderLine.lowerName).eraseDups.map fun name =>
    (.str name, .string ((ascii ", ").intercalate (valuesUnder name lines)))

/-! ### Lower case -/

theorem isDigit_of_toLower {byte : Byte} (hdigit : isDigit (toLower byte) = true) :
    toLower byte = byte := by
  revert byte
  decide

theorem toLower_eq_minus {byte : Byte} (hminus : toLower byte = 0x2d#8) : byte = 0x2d#8 := by
  revert byte
  decide

/-- Lower case makes no digits. -/
theorem map_toLower_of_digits {text : Bytes} (hdigits : (text.map toLower).all isDigit = true) :
    text.map toLower = text := by
  rw [List.all_map, List.all_eq_true] at hdigits
  exact (List.map_congr_left fun byte hbyte => isDigit_of_toLower (hdigits byte hbyte)).trans
    (List.map_id text)

theorem isSignedDecimal_digits {digits : Bytes} (hdigits : digits.all isDigit = true)
    (hne : digits ≠ []) : isSignedDecimal digits = true := by
  obtain ⟨first, rest, rfl⟩ := List.exists_cons_of_ne_nil hne
  have hfirst : isDigit first = true := List.all_eq_true.mp hdigits first List.mem_cons_self
  have hplus : first ≠ 0x2b#8 := by rintro rfl; cases hfirst
  have hminus : first ≠ 0x2d#8 := by rintro rfl; cases hfirst
  simp [isSignedDecimal, hplus, hminus, List.all_cons ▸ hdigits]

theorem isSignedDecimal_minus {digits : Bytes} (hdigits : digits.all isDigit = true)
    (hne : digits ≠ []) : isSignedDecimal (0x2d#8 :: digits) = true := by
  rw [isSignedDecimal, List.head?_cons, List.tail_cons, if_pos (by decide), hdigits, Bool.and_true,
    Bool.not_eq_true', List.isEmpty_eq_false_iff]
  exact hne

/-- A name that is no integer is not one in lower case either, and PHP keeps it. -/
theorem handleNumericStr_toLower {name : Bytes} (htextual : isSignedDecimal name = false) :
    handleNumericStr (name.map toLower) = none := by
  rw [Option.eq_none_iff_forall_ne_some]
  intro n hsome
  obtain ⟨digits, hdigits, hne, hform⟩ := handleNumericStr_eq_some hsome
  have hsigned : isSignedDecimal name = true := by
    rcases hform with ⟨hname, -⟩ | ⟨hname, -⟩
    · have hsame := map_toLower_of_digits (hname ▸ hdigits)
      rw [← hsame, hname]
      exact isSignedDecimal_digits hdigits hne
    · obtain ⟨first, rest, rfl, hfirst, hrest⟩ := List.map_eq_cons_iff.mp hname
      have hsame := map_toLower_of_digits (hrest ▸ hdigits)
      rw [toLower_eq_minus hfirst, ← hsame, hrest]
      exact isSignedDecimal_minus hdigits hne
  rw [hsigned] at htextual
  cases htextual

/-! ### A line is read back -/

variable (line : HeaderLine) (lines : List HeaderLine)

theorem HeaderLine.symtableKey_lowerName : symtableKey line.lowerName = .str line.lowerName :=
  symtableKey_of_none (handleNumericStr_toLower line.textual)

theorem HeaderLine.mem_content {byte : Byte} (hbyte : byte ∈ line.content) :
    byte ≠ lf ∧ byte ≠ 0#8 := by
  rcases List.mem_append.mp hbyte with hname | hafter
  · exact (line.nameBytes byte hname).2.2
  rcases List.mem_cons.mp hafter with rfl | hrest
  · decide
  rcases List.mem_append.mp hrest with hblank | hvalue
  · have hblank' := line.allBlank byte hblank
    constructor <;> rintro rfl <;> cases hblank'
  · exact (line.valueBytes byte hvalue).2

/-- The line as the parser meets it. -/
def HeaderLine.toLine : Line where
  content := line.content
  nonempty := List.append_ne_nil_of_right_ne_nil _ (List.cons_ne_nil _ _)
  oneLine hmem := (line.mem_content hmem).1 rfl
  nulFree _ hmem := (line.mem_content hmem).2

theorem textOf_toLine : textOf (lines.map HeaderLine.toLine) = blockOf lines :=
  List.flatMap_map ..

theorem HeaderLine.dropWhile_blanks :
    (line.blanks ++ line.value).dropWhile isBlank = line.value := by
  rw [List.dropWhile_append_of_pos line.allBlank]
  cases hvalue : line.value with
  | nil => rfl
  | cons first rest =>
    have hfirst := line.startsNonblank first (by rw [hvalue]; rfl)
    exact List.dropWhile_cons_of_neg (by simp [hfirst])

theorem HeaderLine.headerOf_content :
    headerOf line.content = some (line.lowerName, line.value) := by
  have hname : ∀ byte ∈ line.name, decide (byte ≠ colon) = true :=
    fun byte hbyte => decide_eq_true (line.nameBytes byte hbyte).1
  rw [headerOf, content, List.dropWhile_append_of_pos hname, List.takeWhile_append_of_pos hname,
    List.dropWhile_cons_of_neg (by simp), List.takeWhile_cons_of_neg (by simp), List.append_nil]
  dsimp only
  rw [line.dropWhile_blanks]
  rfl

theorem fields_toLine :
    fields (lines.map HeaderLine.toLine) = lines.map fun line => (line.lowerName, line.value) := by
  rw [fields, List.filterMap_map, ← List.filterMap_eq_map]
  exact List.filterMap_congr fun line _ => line.headerOf_content

/-- The loop consumes the block line by line. -/
theorem parse_blockOf :
    parseRawHeadersToAssocArray (blockOf lines) [] =
      addHeaders [] (lines.map fun line => (line.lowerName, line.value)) := by
  have hnothing : strstr crlf (cstr []) = none := rfl
  have hparsed := parse_textOf (lines.map HeaderLine.toLine) hnothing
  rw [List.append_nil] at hparsed
  rw [← fields_toLine, ← textOf_toLine, ← addLines_fields, hparsed]

/-! ### What a name ends with -/

theorem named_str (name : Bytes) :
    named (.str name) (lines.map fun line => (line.lowerName, line.value)) =
      (lines.filter fun line => line.lowerName = name).map
        fun line => (line.lowerName, line.value) := by
  rw [named, List.filter_map]
  congr 1
  refine List.filter_congr fun line _ => ?_
  simp [line.symtableKey_lowerName]

theorem intercalate_cons (separator first : Bytes) (rest : List Bytes) :
    separator.intercalate (first :: rest) = first ++ rest.flatMap (separator ++ ·) := by
  induction rest generalizing first with
  | nil => simp
  | cons second rest ih =>
    rw [List.intercalate_cons_cons, ih, List.flatMap_cons, List.append_assoc, List.append_assoc]

/-- The first value is stored as it is, each later one after a comma and a blank. -/
theorem stored_joined {fields : List (Bytes × Bytes)}
    (htextual : ∀ field ∈ fields, handleNumericStr field.1 = none) (hne : fields ≠ []) :
    stored none fields = some (.string ((ascii ", ").intercalate (fields.map Prod.snd))) := by
  obtain ⟨field, fields, rfl⟩ := List.exists_cons_of_ne_nil hne
  have hrest := stored_textual (fun field hfield => htextual field (List.mem_cons_of_mem _ hfield))
    field.2
  rw [List.map_cons, intercalate_cons, List.flatMap_map]
  rw [← change_none] at hrest
  exact hrest

theorem lookup_parse {name : Bytes} (hname : name ∈ lines.map HeaderLine.lowerName) :
    (parseRawHeadersToAssocArray (blockOf lines) []).lookup (.str name) =
      some (.string ((ascii ", ").intercalate (valuesUnder name lines))) := by
  obtain ⟨line, hline, rfl⟩ := List.mem_map.mp hname
  rw [parse_blockOf, lookup_addHeaders, stored_joined (fun _ => textual_of_named), named_str,
    List.map_map]
  · rfl
  · rw [named_str, ne_eq, List.map_eq_nil_iff, List.filter_eq_nil_iff]
    intro hnone
    exact hnone line hline (decide_eq_true rfl)

theorem keys_parse :
    keys (parseRawHeadersToAssocArray (blockOf lines) []) =
      (lines.map HeaderLine.lowerName).eraseDups.map .str := by
  have hkeys : (lines.map fun line => symtableKey line.lowerName) =
      (lines.map HeaderLine.lowerName).map .str := by
    rw [List.map_map]
    exact List.map_congr_left fun line _ => line.symtableKey_lowerName
  rw [parse_blockOf, keys_addHeaders, List.map_map]
  exact (congrArg List.eraseDups hkeys).trans (eraseDups_map (fun _ _ => Key.str.inj) _)

/-- **Header blocks.** The array holds each lower-cased name once, with the values that the
    block gives under the name, joined in their order. -/
theorem header_block_joined :
    parseRawHeadersToAssocArray (blockOf lines) [] = joinedHeaders lines := by
  have hnodup : (keys (parseRawHeadersToAssocArray (blockOf lines) [])).Nodup := by
    rw [parse_blockOf]
    exact nodup_keys_addHeaders _
  let joined (key : Key) : Zval :=
    .string ((ascii ", ").intercalate (valuesUnder (key.string?.getD []) lines))
  have hlookup : ∀ key ∈ keys (parseRawHeadersToAssocArray (blockOf lines) []),
      (parseRawHeadersToAssocArray (blockOf lines) []).lookup key = some (joined key) := by
    intro key hkey
    rw [keys_parse] at hkey
    obtain ⟨name, hname, rfl⟩ := List.mem_map.mp hkey
    exact lookup_parse lines (List.mem_eraseDups.mp hname)
  rw [eq_map_of_lookup hnodup hlookup, keys_parse, List.map_map]
  rfl

/-- A line with one blank after the colon. -/
def headerLine (name value : String) (hname : ascii name ≠ [] ∧
      ∀ byte ∈ ascii name, byte ≠ colon ∧ byte ≠ cr ∧ byte ≠ lf ∧ byte ≠ 0#8)
    (htextual : isSignedDecimal (ascii name) = false)
    (hvalue : (∀ byte ∈ ascii value, byte ≠ cr ∧ byte ≠ lf ∧ byte ≠ 0#8) ∧
      ∀ byte ∈ (ascii value).head?, isBlank byte = false) : HeaderLine :=
  ⟨ascii name, ascii " ", ascii value, hname.1, hname.2, htextual, by decide, hvalue.1, hvalue.2⟩

def varyLines : List HeaderLine :=
  [headerLine "Vary" "a:b" (by decide +kernel) (by decide +kernel) (by decide +kernel),
    headerLine "ETag" "1" (by decide +kernel) (by decide +kernel) (by decide +kernel),
    headerLine "vary" "" (by decide +kernel) (by decide +kernel) (by decide +kernel)]

example : parseRawHeadersToAssocArray (blockOf varyLines) [] =
    [(.str (ascii "vary"), .string (ascii "a:b, ")), (.str (ascii "etag"), .string (ascii "1"))] :=
  rfl

end QuicproAsync.HttpClient

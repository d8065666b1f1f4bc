import QuicproAsync.PhpKeys

/-!
# Response headers of the HTTP client

libcurl calls `header_callback` of `http_client.c` once for every line of every response
head of a transfer: of interim responses, of redirects and of the final response. The
callback drops the first status line it sees and the blank lines and accumulates the rest;
`parse_raw_headers_to_assoc_array` then reads the accumulated text line by line.

The flag that the status line was seen is never taken back, so the text holds the lines of
all heads, later status lines included. What becomes of the lines before those of the last
head depends on how their names are stored: a value under a textual name is kept and
extended, one under a name that PHP reads as an integer is looked up as a string, not found
and overwritten.

`strstr` stops at a NUL, and nobody writes one behind the accumulated text: `smart_str` leaves
that to `smart_str_0`, which is not called. The memory behind the text is a parameter, and the
lines of the text are read as they are if no CR LF comes before the first NUL in it.
-/

namespace QuicproAsync.HttpClient

open Php OrderedMap

/-! ### Collecting the lines -/

def cr : Byte := 0x0d#8

def lf : Byte := 0x0a#8

def crlf : Bytes := [cr, lf]

/-- `header_data_t`. -/
structure HeaderData where
  headersBuf : Bytes
  firstLineParsed : Bool

/-- libcurl passes one line, `buffer`; all of it is always consumed. -/
def headerCallback (headerData : HeaderData) (buffer : Bytes) : HeaderData :=
  if !headerData.firstLineParsed then
    if 0 < buffer.length && strncmpEq 5 buffer (ascii "HTTP/") then
      { headerData with firstLineParsed := true }
    else headerData
  else if buffer.length = 0 || buffer = crlf then headerData
  else { headerData with headersBuf := headerData.headersBuf ++ buffer }

/-! ### Reading them -/

def colon : Byte := 0x3a#8

/-- The text before the first CR LF and the text after it. -/
def nextLine (text : Bytes) : Option (Bytes × Bytes) :=
  (strstr crlf text).map fun lineEnd => (text.take lineEnd, text.drop (lineEnd + 2))

/-- `zend_hash_find` takes the name as it is, `add_assoc_stringl_ex` stores a value under an
    integer if the name is one. -/
def addHeader (headers : HashTable) (name value : Bytes) : HashTable :=
  match headers.lookup (.str name) with
  | some (.string old) => assign (.str name) (.string (old ++ ascii ", " ++ value)) headers
  | _ => assign (symtableKey name) (.string value) headers

/-- The name and the value that a line gives, if there is a colon in it. -/
def headerOf (line : Bytes) : Option (Bytes × Bytes) :=
  match line.dropWhile (· ≠ colon) with
  | [] => none
  | _ :: after => some ((line.takeWhile (· ≠ colon)).map toLower, after.dropWhile isBlank)

def addLine (headers : HashTable) (line : Bytes) : HashTable :=
  match headerOf line with
  | none => headers
  | some (name, value) => addHeader headers name value

/-- The loop over the lines of `text`; a blank line ends it. -/
def parseLines : Nat → Bytes → HashTable → HashTable
  | 0, _, headers => headers
  | fuel + 1, text, headers =>
    match nextLine text with
    | none => headers
    | some (line, rest) =>
      if line = [] then headers else parseLines fuel rest (addLine headers line)

/-- Every turn of the loop takes a line of the text away. -/
def parseRawHeadersToAssocArray (rawHeadersStr : Bytes) (headers : HashTable) : HashTable :=
  if rawHeadersStr.length = 0 then headers
  else parseLines (rawHeadersStr.length + 1) (cstr rawHeadersStr) headers

/-- The headers of the array that the request function returns, after a transfer in which
    libcurl has passed `lines`. Behind the text lies `beyond`. -/
def responseHeaders (beyond : Bytes) (lines : List Bytes) : HashTable :=
  let headerData := lines.foldl headerCallback ⟨[], false⟩
  if 0 < headerData.headersBuf.length then
    parseRawHeadersToAssocArray (headerData.headersBuf ++ beyond) []
  else []

/-! ### Response heads -/

/-- What a line holds before its CR LF. The blank line is not one of them. -/
structure Line where
  content : Bytes
  nonempty : content ≠ []
  oneLine : lf ∉ content
  nulFree : NulFree content

structure Head where
  status : Line
  isStatus : ascii "HTTP/" <+: status.content
  headers : List Line

/-- The lines of a head, without the blank one. -/
def Head.content (head : Head) : List Line := head.status :: head.headers

/-- What libcurl passes for a head. -/
def Head.lines (head : Head) : List Bytes :=
  head.content.map (fun line => line.content ++ crlf) ++ [crlf]

/-- The lines the callback keeps: all but the first status line. -/
def kept (heads : List Head) : List Line := (heads.flatMap Head.content).tail

/-- The text of lines as the callback accumulates it. -/
def textOf (lines : List Line) : Bytes := lines.flatMap fun line => line.content ++ crlf

theorem textOf_cons (line : Line) (lines : List Line) :
    textOf (line :: lines) = line.content ++ (cr :: lf :: textOf lines) := by
  simp [textOf, crlf]

theorem textOf_append (first second : List Line) :
    textOf (first ++ second) = textOf first ++ textOf second := List.flatMap_append

theorem nulFree_textOf (lines : List Line) : NulFree (textOf lines) := by
  intro byte hbyte
  obtain ⟨line, -, hline⟩ := List.mem_flatMap.mp hbyte
  rcases List.mem_append.mp hline with hcontent | hend
  · exact line.nulFree byte hcontent
  · have hcrlf : NulFree crlf := by decide
    exact hcrlf byte hend

/-! ### What is collected -/

/-- A status line sets the flag and is dropped. -/
theorem headerCallback_status (head : Head) (headersBuf : Bytes) :
    headerCallback ⟨headersBuf, false⟩ (head.status.content ++ crlf) = ⟨headersBuf, true⟩ := by
  obtain ⟨rest, hrest⟩ := head.isStatus
  rw [← hrest]
  rfl

theorem headerCallback_line (line : Line) (headersBuf : Bytes) :
    headerCallback ⟨headersBuf, true⟩ (line.content ++ crlf) =
      ⟨headersBuf ++ (line.content ++ crlf), true⟩ := by
  have hne := line.nonempty
  simp [headerCallback, crlf, hne]

theorem headerCallback_blank (headersBuf : Bytes) :
    headerCallback ⟨headersBuf, true⟩ crlf = ⟨headersBuf, true⟩ := rfl

theorem collected_lines (lines : List Line) (headersBuf : Bytes) :
    (lines.map fun line => line.content ++ crlf).foldl headerCallback ⟨headersBuf, true⟩ =
      ⟨headersBuf ++ textOf lines, true⟩ := by
  induction lines generalizing headersBuf with
  | nil => simp [textOf]
  | cons line lines ih =>
    rw [List.map_cons, List.foldl_cons, headerCallback_line, ih]
    simp [textOf]

theorem collected_heads (heads : List Head) (headersBuf : Bytes) :
    (heads.flatMap Head.lines).foldl headerCallback ⟨headersBuf, true⟩ =
      ⟨headersBuf ++ textOf (heads.flatMap Head.content), true⟩ := by
  induction heads generalizing headersBuf with
  | nil => simp [textOf]
  | cons head heads ih =>
    rw [List.flatMap_cons, List.foldl_append, Head.lines, List.foldl_append, collected_lines,
      List.foldl_cons, headerCallback_blank, List.foldl_nil, ih, List.flatMap_cons,
      textOf_append, List.append_assoc]

/-- **The flag is set once.** The text holds the lines of all heads. -/
theorem collected (heads : List Head) :
    ((heads.flatMap Head.lines).foldl headerCallback ⟨[], false⟩).headersBuf =
      textOf (kept heads) := by
  cases heads with
  | nil => rfl
  | cons head heads =>
    rw [List.flatMap_cons, List.foldl_append, Head.lines, Head.content, List.map_cons,
      List.cons_append, List.foldl_cons, headerCallback_status, List.foldl_append,
      collected_lines, List.foldl_cons, headerCallback_blank, List.foldl_nil, collected_heads,
      kept, List.flatMap_cons, Head.content, List.cons_append, List.tail_cons, textOf_append]
    rfl

/-! ### What is read -/

theorem strstr_crlf {content : Bytes} (honeLine : lf ∉ content) (rest : Bytes) :
    strstr crlf (content ++ (cr :: lf :: rest)) = some content.length := by
  induction content with
  | nil => exact if_pos ⟨rest, rfl⟩
  | cons byte content ih =>
    have hcontent : lf ∉ content := fun hmem => honeLine (List.mem_cons_of_mem byte hmem)
    -- a CR at the end of the content is followed by the CR of the line end
    have hnot : ¬ crlf <+: byte :: (content ++ (cr :: lf :: rest)) := by
      rintro ⟨after, hafter⟩
      have htail : lf :: after = content ++ (cr :: lf :: rest) := (List.cons.inj hafter).2
      cases content with
      | nil => exact absurd (List.cons.inj htail).1 (by decide)
      | cons next content =>
        rw [(List.cons.inj htail).1] at hcontent
        exact hcontent List.mem_cons_self
    rw [List.cons_append, strstr, if_neg hnot, ih hcontent]
    rfl

theorem nextLine_line {content : Bytes} (honeLine : lf ∉ content) (rest : Bytes) :
    nextLine (content ++ (cr :: lf :: rest)) = some (content, rest) := by
  rw [nextLine, strstr_crlf honeLine]
  simp

/-- The lines of a text are read up to its end, if what lies behind it holds no line. -/
theorem parseLines_textOf (lines : List Line) {fuel : Nat} (hfuel : lines.length < fuel)
    {behind : Bytes} (hbehind : strstr crlf behind = none) (headers : HashTable) :
    parseLines fuel (textOf lines ++ behind) headers =
      (lines.map Line.content).foldl addLine headers := by
  induction lines generalizing fuel headers with
  | nil =>
    obtain ⟨fuel, rfl⟩ := Nat.exists_eq_succ_of_ne_zero (Nat.ne_zero_of_lt hfuel)
    have hnone : nextLine behind = none := by rw [nextLine, hbehind, Option.map_none]
    change parseLines (fuel + 1) behind headers = headers
    rw [parseLines, hnone]
  | cons line lines ih =>
    obtain ⟨fuel, rfl⟩ := Nat.exists_eq_succ_of_ne_zero (Nat.ne_zero_of_lt hfuel)
    rw [textOf_cons, List.append_assoc, List.cons_append, List.cons_append, parseLines,
      nextLine_line line.oneLine]
    dsimp only
    rw [if_neg line.nonempty, ih (Nat.lt_of_succ_lt_succ hfuel)]
    rfl

theorem length_le_textOf (lines : List Line) : lines.length ≤ (textOf lines).length := by
  induction lines with
  | nil => exact Nat.le_refl 0
  | cons line lines ih =>
    rw [textOf_cons]
    simp only [List.length_cons, List.length_append]
    omega

theorem parse_textOf (lines : List Line) {beyond : Bytes}
    (hbeyond : strstr crlf (cstr beyond) = none) :
    parseRawHeadersToAssocArray (textOf lines ++ beyond) [] =
      (lines.map Line.content).foldl addLine [] := by
  have hlength := length_le_textOf lines
  have htext : (textOf lines ++ beyond).length = (textOf lines).length + beyond.length :=
    List.length_append
  rw [parseRawHeadersToAssocArray]
  split
  · next hempty =>
      have hnone : lines = [] := List.length_eq_zero_iff.mp (by omega)
      rw [hnone]
      rfl
  · rw [cstr_append_of_nulFree (nulFree_textOf lines), parseLines_textOf lines (by omega) hbeyond]

/-- The names and values of lines. -/
def fields (lines : List Line) : List (Bytes × Bytes) :=
  lines.filterMap fun line => headerOf line.content

theorem fields_append (first second : List Line) :
    fields (first ++ second) = fields first ++ fields second := List.filterMap_append

def addHeaders (headers : HashTable) (fields : List (Bytes × Bytes)) : HashTable :=
  fields.foldl (fun headers field => addHeader headers field.1 field.2) headers

theorem addLines_fields (lines : List Line) (headers : HashTable) :
    (lines.map Line.content).foldl addLine headers =
      addHeaders headers (fields lines) := by
  induction lines generalizing headers with
  | nil => rfl
  | cons line lines ih =>
    rw [List.map_cons, List.foldl_cons, ih]
    cases hheader : headerOf line.content with
    | none =>
      have hfields : fields (line :: lines) = fields lines :=
        List.filterMap_cons_none hheader
      rw [hfields, addLine, hheader]
    | some field =>
      have hfields : fields (line :: lines) = field :: fields lines :=
        List.filterMap_cons_some hheader
      rw [hfields, addLine, hheader]
      rfl

theorem responseHeaders_heads (heads : List Head) {beyond : Bytes}
    (hbeyond : strstr crlf (cstr beyond) = none) :
    responseHeaders beyond (heads.flatMap Head.lines) = addHeaders [] (fields (kept heads)) := by
  rw [← addLines_fields, responseHeaders, collected]
  split
  · exact parse_textOf (kept heads) hbeyond
  · next hempty =>
      have hlength := length_le_textOf (kept heads)
      rw [List.length_eq_zero_iff.mp (Nat.le_zero.mp (hlength.trans (Nat.not_lt.mp hempty)))]
      rfl

/-! ### How a header is stored -/

variable {headers : HashTable}

/-- The keys are as PHP stores them. -/
def Canonical (headers : HashTable) : Prop := ∀ key ∈ keys headers, key.isCanonical = true

theorem isCanonical_symtableKey (name : Bytes) : (symtableKey name).isCanonical = true := by
  rw [symtableKey]
  cases hnumeric : handleNumericStr name with
  | none => simp [Key.isCanonical, hnumeric]
  | some n => rfl

theorem symtableKey_of_none {name : Bytes} (hnone : handleNumericStr name = none) :
    symtableKey name = .str name := by
  rw [symtableKey, hnone]

theorem of_symtableKey_str {name text : Bytes} (hkey : symtableKey name = .str text) :
    handleNumericStr name = none := by
  rw [symtableKey] at hkey
  cases hnumeric : handleNumericStr name with
  | none => rfl
  | some n =>
    rw [hnumeric] at hkey
    cases hkey

/-- What is stored for a field when `old` is what was there. -/
def change (field : Bytes × Bytes) (old : Option Zval) : Zval :=
  match handleNumericStr field.1, old with
  | none, some (.string old) => .string (old ++ ascii ", " ++ field.2)
  | _, _ => .string field.2

theorem change_none (field : Bytes × Bytes) : change field none = .string field.2 := by
  cases hnumeric : handleNumericStr field.1 with
  | none => simp only [change, hnumeric]
  | some n => simp only [change, hnumeric]

/-- A textual name is found under itself; an integer is never found and always assigned. -/
theorem addHeader_eq_update (hcanonical : Canonical headers) (field : Bytes × Bytes) :
    addHeader headers field.1 field.2 = update (symtableKey field.1) (change field) headers := by
  cases hnumeric : handleNumericStr field.1 with
  | none =>
    rw [symtableKey_of_none hnumeric, update, addHeader, symtableKey_of_none hnumeric]
    simp only [change, hnumeric]
    split <;> simp_all
  | some n =>
    have habsent : headers.lookup (.str field.1) = none := by
      apply lookup_eq_none_iff_not_mem_keys.mpr
      intro hmem
      have hkey := hcanonical _ hmem
      rw [Key.isCanonical, hnumeric] at hkey
      cases hkey
    rw [addHeader, habsent, update]
    simp only [change, hnumeric]

theorem Canonical.update (hcanonical : Canonical headers) (name : Bytes)
    (change : Option Zval → Zval) :
    Canonical (OrderedMap.update (symtableKey name) change headers) := by
  intro key hkey
  by_cases hmem : symtableKey name ∈ keys headers
  · rw [OrderedMap.update, keys_assign_of_mem hmem] at hkey
    exact hcanonical key hkey
  · rw [OrderedMap.update, assign_of_not_mem hmem, keys, List.map_append] at hkey
    rcases List.mem_append.mp hkey with hold | hnew
    · exact hcanonical key hold
    · rw [List.mem_singleton.mp hnew]
      exact isCanonical_symtableKey name

/-- The fields as a log of changes. -/
def log (fields : List (Bytes × Bytes)) : List (Key × (Option Zval → Zval)) :=
  fields.map fun field => (symtableKey field.1, change field)

theorem addHeaders_eq_replay (hcanonical : Canonical headers) (fields : List (Bytes × Bytes)) :
    addHeaders headers fields = replay (log fields) headers := by
  induction fields generalizing headers with
  | nil => rfl
  | cons field fields ih =>
    change addHeaders (addHeader headers field.1 field.2) fields = _
    rw [addHeader_eq_update hcanonical, ih (hcanonical.update _ _)]
    rfl

/-! ### What one key ends with -/

variable {earlier last : List (Bytes × Bytes)}

/-- The fields that are stored under a key. -/
def named (key : Key) (fields : List (Bytes × Bytes)) : List (Bytes × Bytes) :=
  fields.filter fun field => symtableKey field.1 = key

/-- What is stored after fields of one name, when `old` is what was there. -/
def stored (old : Option Zval) (fields : List (Bytes × Bytes)) : Option Zval :=
  fields.foldl (fun old field => some (change field old)) old

theorem stored_append (old : Option Zval) (first second : List (Bytes × Bytes)) :
    stored old (first ++ second) = stored (stored old first) second := List.foldl_append

/-- The array that is built is the replay of the log from nothing. -/
theorem addHeaders_nil (fields : List (Bytes × Bytes)) :
    addHeaders [] fields = replay (log fields) [] := by
  have hempty : Canonical [] := fun key hkey => nomatch hkey
  exact addHeaders_eq_replay hempty fields

theorem lookup_addHeaders (fields : List (Bytes × Bytes)) (key : Key) :
    (addHeaders [] fields).lookup key = stored none (named key fields) := by
  rw [addHeaders_nil, lookup_replay, log, List.filter_map, List.foldl_map]
  rfl

theorem keys_addHeaders (fields : List (Bytes × Bytes)) :
    keys (addHeaders [] fields) = (fields.map fun field => symtableKey field.1).eraseDups := by
  rw [addHeaders_nil, keys_replay, keys, log, List.map_map]
  rfl

theorem nodup_keys_addHeaders (fields : List (Bytes × Bytes)) :
    (keys (addHeaders [] fields)).Nodup := by
  rw [keys_addHeaders]
  exact nodup_eraseDups _

/-- The values of a textual name are joined. -/
theorem stored_textual {fields : List (Bytes × Bytes)}
    (htextual : ∀ field ∈ fields, handleNumericStr field.1 = none) (old : Bytes) :
    stored (some (.string old)) fields =
      some (.string (old ++ fields.flatMap fun field => ascii ", " ++ field.2)) := by
  induction fields generalizing old with
  | nil => rw [List.flatMap_nil, List.append_nil]; rfl
  | cons field fields ih =>
    have hfield := htextual field List.mem_cons_self
    have hchange : change field (some (.string old)) =
        .string (old ++ ascii ", " ++ field.2) := by
      simp only [change, hfield]
    have hrest := ih (fun field hfield => htextual field (List.mem_cons_of_mem _ hfield))
      (old ++ ascii ", " ++ field.2)
    rw [← hchange] at hrest
    refine hrest.trans ?_
    simp only [List.flatMap_cons, List.append_assoc]

/-- An integer ends with its last value, whatever was there before. -/
theorem stored_integer {fields : List (Bytes × Bytes)}
    (hinteger : ∀ field ∈ fields, (handleNumericStr field.1).isSome) (hne : fields ≠ [])
    (old other : Option Zval) : stored old fields = stored other fields := by
  obtain ⟨field, fields, rfl⟩ := List.exists_cons_of_ne_nil hne
  obtain ⟨n, hn⟩ := Option.isSome_iff_exists.mp (hinteger field List.mem_cons_self)
  have hchange : change field old = change field other := by
    simp only [change, hn]
  change stored (some (change field old)) fields = stored (some (change field other)) fields
  rw [hchange]

theorem textual_of_named {text : Bytes} {fields : List (Bytes × Bytes)} {field : Bytes × Bytes}
    (hfield : field ∈ named (.str text) fields) : handleNumericStr field.1 = none :=
  of_symtableKey_str (of_decide_eq_true (List.mem_filter.mp hfield).2)

/-- A first value of a textual name stays in front of the later ones. -/
theorem stored_textual_ne {first second : List (Bytes × Bytes)}
    (hfirst : ∀ field ∈ first, handleNumericStr field.1 = none)
    (hsecond : ∀ field ∈ second, handleNumericStr field.1 = none) (hne : first ≠ []) :
    stored none (first ++ second) ≠ stored none second := by
  obtain ⟨field, first, rfl⟩ := List.exists_cons_of_ne_nil hne
  intro hsame
  rw [stored_append] at hsame
  have hold := stored_textual (fun field hfield => hfirst field (List.mem_cons_of_mem _ hfield))
    field.2
  have hleft : stored none (field :: first) = stored (some (.string field.2)) first :=
    congrArg (stored · first) (congrArg some (change_none field))
  rw [hleft, hold, stored_textual hsecond] at hsame
  cases second with
  | nil => cases hsame
  | cons next second =>
    have hright : stored none (next :: second) = stored (some (.string next.2)) second :=
      congrArg (stored · second) (congrArg some (change_none next))
    rw [hright, stored_textual fun field hfield =>
      hsecond field (List.mem_cons_of_mem _ hfield)] at hsame
    have hlength := congrArg List.length (Zval.string.inj (Option.some.inj hsame))
    have hcomma : (ascii ", ").length = 2 := rfl
    simp only [List.flatMap_cons, List.length_append, hcomma] at hlength
    omega

/-! ### Which earlier fields show -/

/-- The names of the earlier fields are integers, and they come first in `last` as well. -/
def Overwritten (earlier last : List (Bytes × Bytes)) : Prop :=
  (∀ field ∈ earlier, (handleNumericStr field.1).isSome) ∧
    (earlier.map fun field => symtableKey field.1).eraseDups <+:
      (last.map fun field => symtableKey field.1).eraseDups

instance (earlier last : List (Bytes × Bytes)) : Decidable (Overwritten earlier last) :=
  inferInstanceAs (Decidable (_ ∧ _))

theorem named_append (key : Key) (first second : List (Bytes × Bytes)) :
    named key (first ++ second) = named key first ++ named key second := List.filter_append ..

theorem integer_of_same (hsame : addHeaders [] (earlier ++ last) = addHeaders [] last)
    {field : Bytes × Bytes} (hfield : field ∈ earlier) : (handleNumericStr field.1).isSome := by
  rw [Option.isSome_iff_ne_none]
  intro hnone
  have hlookup := congrArg (List.lookup (.str field.1)) hsame
  rw [lookup_addHeaders, lookup_addHeaders, named_append] at hlookup
  have hnamed : field ∈ named (.str field.1) earlier :=
    List.mem_filter.mpr ⟨hfield, decide_eq_true (symtableKey_of_none hnone)⟩
  exact stored_textual_ne (fun _ => textual_of_named) (fun _ => textual_of_named)
    (List.ne_nil_of_mem hnamed) hlookup

theorem lookup_same (hover : Overwritten earlier last) (key : Key) :
    (addHeaders [] (earlier ++ last)).lookup key = (addHeaders [] last).lookup key := by
  rw [lookup_addHeaders, lookup_addHeaders, named_append]
  by_cases hnone : named key earlier = []
  · rw [hnone, List.nil_append]
  obtain ⟨field, hfield⟩ := List.exists_mem_of_ne_nil _ hnone
  obtain ⟨hmem, hkey⟩ := List.mem_filter.mp hfield
  -- the name is in the last head too, where it is the same integer
  have hlast : key ∈ last.map fun field => symtableKey field.1 :=
    List.mem_eraseDups.mp (hover.2.subset (List.mem_eraseDups.mpr
      (List.mem_map.mpr ⟨field, hmem, of_decide_eq_true hkey⟩)))
  obtain ⟨other, hother, hotherKey⟩ := List.mem_map.mp hlast
  have hnamed : other ∈ named key last := List.mem_filter.mpr ⟨hother, decide_eq_true hotherKey⟩
  have hinteger : ∀ field ∈ named key last, (handleNumericStr field.1).isSome := by
    intro next hnext
    have hnextKey := of_decide_eq_true (List.mem_filter.mp hnext).2
    rw [symtableKey_injective (hnextKey.trans (of_decide_eq_true hkey).symm)]
    exact hover.1 field hmem
  rw [stored_append]
  exact stored_integer hinteger (List.ne_nil_of_mem hnamed) _ _

theorem addHeaders_same_iff :
    addHeaders [] (earlier ++ last) = addHeaders [] last ↔ Overwritten earlier last := by
  constructor
  · intro hsame
    refine ⟨fun field hfield => integer_of_same hsame hfield, ?_⟩
    have hkeys := congrArg keys hsame
    rw [keys_addHeaders, keys_addHeaders, List.map_append, List.eraseDups_append] at hkeys
    exact ⟨_, hkeys⟩
  · intro hover
    refine ext_of_lookup (nodup_keys_addHeaders _) ?_ (lookup_same hover)
    rw [keys_addHeaders, keys_addHeaders, List.map_append]
    exact eraseDups_append_of_prefix hover.2

/-- The lines that the callback keeps before those of the last head: the header lines of the
    heads before it and all status lines but the first. -/
def linesBefore (earlier : List Head) (last : Head) : List Line :=
  (earlier.flatMap Head.content ++ [last.status]).tail

theorem kept_concat (earlier : List Head) (last : Head) :
    kept (earlier ++ [last]) = linesBefore earlier last ++ last.headers := by
  have hne : earlier.flatMap Head.content ++ [last.status] ≠ [] := by simp
  rw [linesBefore, ← List.tail_append_of_ne_nil hne, kept]
  simp [Head.content]

/-- **Headers of the last response.** The array is the one of the last head alone exactly if
    what the lines before it give is overwritten: whatever lies behind the text in the two
    transfers, as long as no CR LF comes before the first NUL there. -/
theorem headers_of_last_iff (earlier : List Head) (last : Head) (beyond beyond' : Bytes)
    (hbeyond : strstr crlf (cstr beyond) = none) (hbeyond' : strstr crlf (cstr beyond') = none) :
    responseHeaders beyond ((earlier ++ [last]).flatMap Head.lines) =
        responseHeaders beyond' last.lines ↔
      Overwritten (fields (linesBefore earlier last)) (fields last.headers) := by
  have halone : responseHeaders beyond' last.lines = addHeaders [] (fields last.headers) := by
    have hheads := responseHeaders_heads [last] hbeyond'
    rw [List.flatMap_singleton] at hheads
    exact hheads.trans (congrArg (fun lines => addHeaders [] (fields lines)) (kept_concat [] last))
  rw [responseHeaders_heads _ hbeyond, halone, kept_concat, fields_append, addHeaders_same_iff]

def asciiLine (text : String)
    (hline : ascii text ≠ [] ∧ lf ∉ ascii text ∧ NulFree (ascii text)) : Line :=
  ⟨ascii text, hline.1, hline.2.1, hline.2.2⟩

def continueHead : Head :=
  ⟨asciiLine "HTTP/2 100" (by decide +kernel), by decide +kernel, []⟩

def redirectHead : Head :=
  ⟨asciiLine "HTTP/2 301" (by decide +kernel), by decide +kernel,
    [asciiLine "Location: /" (by decide +kernel)]⟩

def finalHead : Head :=
  ⟨asciiLine "HTTP/2 200" (by decide +kernel), by decide +kernel,
    [asciiLine "ETag: 1" (by decide +kernel)]⟩

theorem headers_of_last_interim :
    Overwritten (fields (linesBefore [continueHead] finalHead)) (fields finalHead.headers) ∧
      responseHeaders [0x00#8, cr, lf] (([continueHead] ++ [finalHead]).flatMap Head.lines) =
        responseHeaders [] finalHead.lines :=
  ⟨by decide +kernel, (headers_of_last_iff [continueHead] finalHead [0x00#8, cr, lf] [] rfl rfl).mpr
    (by decide +kernel)⟩

/-- The location of a redirect that was followed is among the headers of the final response. -/
theorem redirect_location_shown :
    responseHeaders [0x00#8] (([redirectHead] ++ [finalHead]).flatMap Head.lines) ≠
      responseHeaders [0x00#8] finalHead.lines :=
  fun hsame => absurd (congrArg List.length hsame) (by decide +kernel)

end QuicproAsync.HttpClient

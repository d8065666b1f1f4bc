import QuicproAsync.AllowLists

/-!
# CPU affinity maps

`validate_cpu_affinity_map_string.c` checks a map from workers to cores, such as `0:0-1,1:2-3`. It
takes the string apart with `php_strtok_r` at three levels: at the commas, each entry at the colons,
and what follows the worker at the dashes. Numbers are checked with `strtol`.

The tokenizers pass over empty pieces, the function looks at the first two tokens of an entry and of
a range only, and `strtol` takes a sign. So all maps of the format are accepted, and other strings
too. What they have in common is said by `Loose`, and `Tidy` says what sets the maps apart.
-/

namespace QuicproAsync.AffinityMap

open Php Configuration Cors Tokens

def colon : Byte := 0x3a#8

def dash : Byte := 0x2d#8

def plus : Byte := 0x2b#8

/-! ### The validator -/

def dropSign : Bytes → Bytes
  | [] => []
  | first :: rest => if first = plus || first = dash then rest else first :: rest

/-- What `strtol` leaves of a text. Without digits it leaves all of it. -/
def strtolRest (text : Bytes) : Bytes :=
  let unsigned := dropSign (text.dropWhile isSpace)
  if unsigned.takeWhile isDigit = [] then text else unsigned.dropWhile isDigit

def isNumericString : Bytes → Bool
  | [] => false
  | first :: rest => !isSpace first && strtolRest (first :: rest) = []

/-- The part of the loop's body that is about the cores. -/
def isValidCorePart (corePart : Bytes) : Bool :=
  let (coreStart, coreSaveptr) := strtokR dash (some corePart)
  let (coreEnd, _) := strtokR dash coreSaveptr
  match coreStart, coreEnd with
  | none, _ => false
  | some coreStart, none => isNumericString coreStart
  | some coreStart, some coreEnd => isNumericString coreStart && isNumericString coreEnd

/-- The body of the loop over the entries. -/
def isValidEntry (entryToken : Bytes) : Bool :=
  let (workerPart, rangeSaveptr) := strtokR colon (some entryToken)
  let (corePart, _) := strtokR colon rangeSaveptr
  match workerPart, corePart with
  | some workerPart, some corePart => isNumericString workerPart && isValidCorePart corePart
  | _, _ => false

/-- The empty string is accepted before the loop. -/
def qpValidateCpuAffinityMapString (value : Zval) (target : Option CString) :
    Option CString × Option Bytes :=
  storeAt target <| stringValidator "Invalid type for CPU affinity map. A string is required."
    "Invalid format for CPU affinity map. Expected format like '0:0-1,1:2-3'."
    (fun inputCopy =>
      if inputCopy.length = 0 then true
      else forTokens comma isValidEntry (inputCopy.length + 1) (some inputCopy)) value

/-! ### The format -/

/-- A non-empty run of digits. -/
def IsNumber (text : Bytes) : Prop := text ≠ [] ∧ ∀ byte ∈ text, isDigit byte = true

/-- A core, or two cores joined by a dash. -/
def IsCores (text : Bytes) : Prop :=
  IsNumber text ∨ ∃ first last, IsNumber first ∧ IsNumber last ∧ text = first ++ dash :: last

def IsEntry (text : Bytes) : Prop :=
  ∃ worker cores, IsNumber worker ∧ IsCores cores ∧ text = worker ++ colon :: cores

/-- Nothing, or entries separated by single commas. -/
def IsMap (text : Bytes) : Prop :=
  text = [] ∨ ∃ entries, entries ≠ [] ∧ (∀ entry ∈ entries, IsEntry entry) ∧
    text = [comma].intercalate entries

/-- **The validator is exact** for a string: it accepts the string if and only if it is a map, and
    if it rejects the string it leaves what was stored. -/
def Exact (text : CString) (target : Option CString) : Prop :=
  let result := qpValidateCpuAffinityMapString (.string text.val) target
  (result.2 = none ↔ IsMap text.val) ∧ (result.2 ≠ none → result.1 = target)

/-! ### What is accepted -/

def IsSigned (text : Bytes) : Prop := IsNumber (dropSign text)

/-- The first two numbers are numbers with or without a sign. -/
def LooseCores (cores : Bytes) : Prop :=
  ∃ first others, tokens dash cores = first :: others ∧ IsSigned first ∧
    ∀ second ∈ others.head?, IsSigned second

/-- Of the parts between colons, the first two are looked at. -/
def LooseEntry (entry : Bytes) : Prop :=
  ∃ worker cores others, tokens colon entry = worker :: cores :: others ∧ IsSigned worker ∧
    LooseCores cores

def Loose (text : Bytes) : Prop := ∀ entry ∈ tokens comma text, LooseEntry entry

/-- One number or two, none of them empty and none with a sign. -/
def TidyPart (part : Bytes) : Prop :=
  (part.splitOn dash).length ≤ 2 ∧
    ∀ number ∈ part.splitOn dash, number ≠ [] ∧ number.head? ≠ some plus

def TidyEntry (entry : Bytes) : Prop :=
  (entry.splitOn colon).length = 2 ∧ ∀ part ∈ entry.splitOn colon, TidyPart part

/-- Nothing is passed over, and no number has a sign. -/
def Tidy (text : Bytes) : Prop := text = [] ∨ ∀ entry ∈ text.splitOn comma, TidyEntry entry

instance (part : Bytes) : Decidable (TidyPart part) := inferInstanceAs (Decidable (_ ∧ _))

instance (entry : Bytes) : Decidable (TidyEntry entry) := inferInstanceAs (Decidable (_ ∧ _))

instance (text : Bytes) : Decidable (Tidy text) := inferInstanceAs (Decidable (_ ∨ _))

variable {text part entry number cores : Bytes}

/-! ### Numbers -/

theorem isSpace_of_isDigit : ∀ byte : Byte, isDigit byte = true → isSpace byte = false := by
  decide

theorem not_isDigit_plus : isDigit plus = false := by decide

theorem not_isDigit_dash : isDigit dash = false := by decide

theorem not_isDigit_colon : isDigit colon = false := by decide

theorem not_isDigit_comma : isDigit comma = false := by decide

theorem IsNumber.not_mem {byte : Byte} (hnumber : IsNumber text) (hbyte : isDigit byte = false) :
    byte ∉ text := by
  intro hmem
  have hdigit := hnumber.2 byte hmem
  rw [hbyte] at hdigit
  cases hdigit

/-- A number with a sign is a number if the sign is not there. -/
theorem IsSigned.isNumber (hsigned : IsSigned text) (hplus : text.head? ≠ some plus)
    (hdash : text.head? ≠ some dash) : IsNumber text := by
  cases text with
  | nil => exact hsigned
  | cons first rest =>
    have hnot : ¬ (first = plus || first = dash) = true := by
      simpa using And.intro hplus hdash
    rwa [IsSigned, dropSign, if_neg hnot] at hsigned

theorem IsNumber.isSigned (hnumber : IsNumber text) : IsSigned text := by
  cases text with
  | nil => exact hnumber
  | cons first rest =>
    have hfirst := hnumber.2 first List.mem_cons_self
    have hnot : ¬ (first = plus || first = dash) = true := by
      rw [Bool.or_eq_true, decide_eq_true_iff, decide_eq_true_iff]
      rintro (rfl | rfl)
      · exact absurd hfirst (by decide)
      · exact absurd hfirst (by decide)
    rwa [IsSigned, dropSign, if_neg hnot]

theorem IsSigned.head_not_isSpace {first : Byte} {rest : Bytes}
    (hsigned : IsSigned (first :: rest)) : isSpace first = false := by
  by_cases hplus : first = plus
  · rw [hplus]
    decide
  · by_cases hdash : first = dash
    · rw [hdash]
      decide
    · have hnumber : IsNumber (first :: rest) :=
        hsigned.isNumber (fun h => hplus (Option.some.inj h)) fun h => hdash (Option.some.inj h)
      exact isSpace_of_isDigit first (hnumber.2 first List.mem_cons_self)

theorem isNumericString_iff : isNumericString text = true ↔ IsSigned text := by
  cases text with
  | nil => simp [isNumericString, IsSigned, IsNumber, dropSign]
  | cons first rest =>
    have hrest : isSpace first = false →
        (strtolRest (first :: rest) = [] ↔ IsSigned (first :: rest)) := by
      intro hspace
      rw [strtolRest, dropWhile_of_head hspace, IsSigned, IsNumber]
      generalize dropSign (first :: rest) = digits
      split
      · next hnone =>
          refine iff_of_false (List.cons_ne_nil first rest) ?_
          rintro ⟨hne, hdigits⟩
          rw [List.takeWhile_eq_self_iff.mpr hdigits] at hnone
          exact hne hnone
      · next hsome =>
          rw [List.dropWhile_eq_nil_iff]
          have hne : digits ≠ [] := by
            rintro rfl
            exact hsome rfl
          exact (and_iff_right hne).symm
    rw [isNumericString, Bool.and_eq_true, decide_eq_true_iff, Bool.not_eq_true']
    constructor
    · rintro ⟨hspace, hend⟩
      exact (hrest hspace).mp hend
    · intro hsigned
      have hspace := hsigned.head_not_isSpace
      exact ⟨hspace, (hrest hspace).mpr hsigned⟩

/-! ### The validator accepts loose maps -/

theorem isValidCorePart_iff : isValidCorePart cores = true ↔ LooseCores cores := by
  obtain ⟨hstart, hend⟩ := strtokR_twice dash cores
  rw [isValidCorePart, LooseCores]
  generalize strtokR dash (some cores) = result at hstart hend ⊢
  obtain ⟨coreStart, coreSaveptr⟩ := result
  dsimp only at hstart hend ⊢
  generalize strtokR dash coreSaveptr = result at hend ⊢
  obtain ⟨coreEnd, coreRest⟩ := result
  dsimp only at hend ⊢
  subst hstart
  subst hend
  cases tokens dash cores with
  | nil => simp
  | cons first others =>
    cases others with
    | nil => simp [isNumericString_iff]
    | cons second surplus => simp [isNumericString_iff]

theorem isValidEntry_iff : isValidEntry entry = true ↔ LooseEntry entry := by
  obtain ⟨hworker, hcores⟩ := strtokR_twice colon entry
  rw [isValidEntry, LooseEntry]
  generalize strtokR colon (some entry) = result at hworker hcores ⊢
  obtain ⟨workerPart, rangeSaveptr⟩ := result
  dsimp only at hworker hcores ⊢
  generalize strtokR colon rangeSaveptr = result at hcores ⊢
  obtain ⟨corePart, rangeRest⟩ := result
  dsimp only at hcores ⊢
  subst hworker
  subst hcores
  cases tokens colon entry with
  | nil => simp
  | cons worker others =>
    cases others with
    | nil => simp
    | cons cores surplus => simp [isNumericString_iff, isValidCorePart_iff]

theorem qpValidateCpuAffinityMapString_spec (text : CString) (target : Option CString) :
    let result := qpValidateCpuAffinityMapString (.string text.val) target
    (result.2 = none ↔ Loose text.val) ∧ (result.2 ≠ none → result.1 = target) := by
  have hloop : (if text.val.length = 0 then true
      else forTokens comma isValidEntry (text.val.length + 1) (some text.val)) = true ↔
        Loose text.val := by
    split
    · next hempty =>
        rw [List.eq_nil_of_length_eq_zero hempty, Loose, tokens_nil]
        exact iff_of_true rfl (List.forall_mem_nil _)
    · rw [forTokens_text, List.all_eq_true]
      exact forall₂_congr fun entry _ => isValidEntry_iff
  obtain ⟨haccepted, -, hrejected⟩ := storeAt_stringValidator _ _ _ text target
  exact ⟨haccepted.trans hloop, hrejected⟩

/-! ### Maps are loose and tidy -/

theorem IsNumber.tidyPart (hnumber : IsNumber text) : TidyPart text := by
  have hplus : text.head? ≠ some plus := fun hhead =>
    hnumber.not_mem not_isDigit_plus (List.mem_of_head? hhead)
  rw [TidyPart, List.splitOn_eq_singleton (hnumber.not_mem not_isDigit_dash)]
  simpa using ⟨hnumber.1, hplus⟩

theorem TidyPart.ne_nil (htidy : TidyPart part) : part ≠ [] := by
  rintro rfl
  exact (htidy.2 [] (by simp)).1 rfl

/-- A tidy part does not begin with a sign. -/
theorem TidyPart.head (htidy : TidyPart part) :
    part.head? ≠ some plus ∧ part.head? ≠ some dash := by
  obtain ⟨first, rest, rfl⟩ := List.exists_cons_of_ne_nil htidy.ne_nil
  obtain ⟨next, others, hpieces⟩ := List.exists_cons_of_ne_nil (List.splitOn_ne_nil dash rest)
  have hnumbers := htidy.2
  rw [List.splitOn_cons_eq_if_modifyHead, hpieces] at hnumbers
  constructor
  · rintro hplus
    cases hplus
    exact (hnumbers (plus :: next) List.mem_cons_self).2 rfl
  · rintro hdash
    cases hdash
    exact (hnumbers [] List.mem_cons_self).1 rfl

theorem isNumber_iff : IsNumber text ↔ IsSigned text ∧ TidyPart text := by
  constructor
  · intro hnumber
    exact ⟨hnumber.isSigned, hnumber.tidyPart⟩
  · rintro ⟨hsigned, htidy⟩
    exact hsigned.isNumber htidy.head.1 htidy.head.2

/-- The same for the numbers of a part. -/
theorem TidyPart.isNumber (htidy : TidyPart part) (hnumber : number ∈ part.splitOn dash)
    (hsigned : IsSigned number) : IsNumber number := by
  apply hsigned.isNumber (htidy.2 number hnumber).2
  intro hdash
  exact not_mem_of_mem_splitOn hnumber (List.mem_of_head? hdash)

theorem isCores_iff : IsCores cores ↔ LooseCores cores ∧ TidyPart cores := by
  constructor
  · rintro (hnumber | ⟨first, last, hfirst, hlast, rfl⟩)
    · refine ⟨⟨cores, [], ?_, hnumber.isSigned, by simp⟩, hnumber.tidyPart⟩
      exact tokens_of_not_mem hnumber.1 (hnumber.not_mem not_isDigit_dash)
    · obtain ⟨htokens, hsplit⟩ := tokens_pair hfirst.1 hlast.1
        (hfirst.not_mem not_isDigit_dash) (hlast.not_mem not_isDigit_dash)
      refine ⟨⟨first, [last], htokens, hfirst.isSigned, ?_⟩, ?_⟩
      · rintro second hsecond
        cases hsecond
        exact hlast.isSigned
      · rw [TidyPart, hsplit]
        have hplus : ∀ number, IsNumber number → number.head? ≠ some plus :=
          fun number hnumber hhead => hnumber.not_mem not_isDigit_plus (List.mem_of_head? hhead)
        simpa using ⟨⟨hfirst.1, hplus first hfirst⟩, hlast.1, hplus last hlast⟩
  · rintro ⟨⟨first, others, htokens, hfirst, hothers⟩, htidy⟩
    have hsplit : cores.splitOn dash = first :: others := by
      rw [← htokens, tokens_eq_splitOn fun number hnumber => (htidy.2 number hnumber).1]
    have hnumber : IsNumber first := htidy.isNumber (by simp [hsplit]) hfirst
    have hlength := htidy.1
    rw [hsplit] at hlength
    cases others with
    | nil =>
      rw [eq_of_splitOn_single hsplit]
      exact Or.inl hnumber
    | cons last surplus =>
      obtain rfl : surplus = [] := by
        simpa using hlength
      have hlast : IsNumber last := htidy.isNumber (by simp [hsplit]) (hothers last rfl)
      exact Or.inr ⟨first, last, hnumber, hlast, eq_of_splitOn_pair hsplit⟩

theorem IsCores.not_mem {byte : Byte} (hcores : IsCores cores) (hdigit : isDigit byte = false)
    (hdash : byte ≠ dash) : byte ∉ cores := by
  rcases hcores with hnumber | ⟨first, last, hfirst, hlast, rfl⟩
  · exact hnumber.not_mem hdigit
  · simp [hfirst.not_mem hdigit, hlast.not_mem hdigit, hdash]

theorem isEntry_iff : IsEntry entry ↔ LooseEntry entry ∧ TidyEntry entry := by
  constructor
  · rintro ⟨worker, cores, hworker, hcores, rfl⟩
    obtain ⟨hloose, htidy⟩ := isCores_iff.mp hcores
    obtain ⟨htokens, hsplit⟩ := tokens_pair hworker.1 htidy.ne_nil
      (hworker.not_mem not_isDigit_colon) (hcores.not_mem not_isDigit_colon (by decide))
    refine ⟨⟨worker, cores, [], htokens, hworker.isSigned, hloose⟩, ?_⟩
    rw [TidyEntry, hsplit]
    simpa using ⟨hworker.tidyPart, htidy⟩
  · rintro ⟨⟨worker, cores, others, htokens, hworker, hcores⟩, hlength, hparts⟩
    have hsplit : entry.splitOn colon = worker :: cores :: others := by
      rw [← htokens, tokens_eq_splitOn fun part hpart => (hparts part hpart).ne_nil]
    rw [hsplit] at hlength hparts
    obtain rfl : others = [] := by
      simpa using hlength
    refine ⟨worker, cores, ?_, ?_, eq_of_splitOn_pair hsplit⟩
    · exact isNumber_iff.mpr ⟨hworker, hparts worker (by simp)⟩
    · exact isCores_iff.mpr ⟨hcores, hparts cores (by simp)⟩

theorem IsEntry.comma_not_mem (hentry : IsEntry entry) : comma ∉ entry := by
  obtain ⟨worker, cores, hworker, hcores, rfl⟩ := hentry
  have hcolon : comma ≠ colon := by decide
  simp [hworker.not_mem not_isDigit_comma, hcores.not_mem not_isDigit_comma (by decide), hcolon]

theorem isMap_iff_pieces :
    IsMap text ↔ text = [] ∨ ∀ entry ∈ text.splitOn comma, IsEntry entry := by
  refine or_congr_right' fun _ => ?_
  constructor
  · rintro ⟨entries, hne, hentries, rfl⟩
    rw [List.splitOn_intercalate comma (fun entry hentry => (hentries entry hentry).comma_not_mem)
      hne]
    exact hentries
  · intro hentries
    exact ⟨text.splitOn comma, List.splitOn_ne_nil comma text, hentries,
      (List.intercalate_splitOn comma).symm⟩

theorem isMap_iff : IsMap text ↔ Loose text ∧ Tidy text := by
  rw [isMap_iff_pieces, Loose, Tidy]
  constructor
  · rintro (rfl | hentries)
    · rw [tokens_nil]
      exact ⟨List.forall_mem_nil _, Or.inl rfl⟩
    · refine ⟨fun entry htoken => ?_, Or.inr fun entry hentry => ?_⟩
      · exact (isEntry_iff.mp (hentries entry (mem_tokens.mp htoken).1)).1
      · exact (isEntry_iff.mp (hentries entry hentry)).2
  · rintro ⟨hloose, rfl | htidy⟩
    · exact Or.inl rfl
    · refine Or.inr fun entry hentry => ?_
      have hne : entry ≠ [] := by
        rintro rfl
        exact absurd (htidy [] hentry).1 (by simp)
      exact isEntry_iff.mpr ⟨hloose entry (mem_tokens.mpr ⟨hentry, hne⟩), htidy entry hentry⟩

/-- **The validator is exact** for a string if and only if the string is not loose or it is tidy:
    for every string without NUL, and whatever was stored before. All maps are accepted. -/
theorem validator_exact_iff (text : CString) (target : Option CString) :
    Exact text target ↔ (Loose text.val → Tidy text.val) := by
  obtain ⟨haccepted, hrejected⟩ := qpValidateCpuAffinityMapString_spec text target
  have hexact : Exact text target ↔ (Loose text.val ↔ IsMap text.val) := by
    rw [Exact, ← haccepted]
    exact and_iff_left hrejected
  rw [hexact, isMap_iff]
  constructor
  · intro hsame hloose
    exact (hsame.mp hloose).2
  · intro htidy
    exact ⟨fun hloose => ⟨hloose, htidy hloose⟩, And.left⟩

/-- An empty piece, a third part, a third number and a sign. -/
def looseMaps : List CString :=
  ["0:0,", "0:0:x", "0:1-2-x", "+0:0"].map fun text => pestrdup (ascii text)

/-- All of them are accepted and stored. -/
theorem loose_maps_accepted :
    (looseMaps.map fun text => qpValidateCpuAffinityMapString (.string text.val) none) =
        (looseMaps.map fun text => (some text, none)) ∧
      ∀ text ∈ looseMaps, ¬ IsMap text.val ∧ ¬ Exact text none := by
  have haccepted : ∀ text ∈ looseMaps,
      qpValidateCpuAffinityMapString (.string text.val) none = (some text, none) := by
    decide +kernel
  have htidy : ∀ text ∈ looseMaps, ¬ Tidy text.val := by decide +kernel
  refine ⟨List.map_congr_left haccepted, fun text htext => ?_⟩
  have hnot : ¬ IsMap text.val := fun hmap => htidy text htext (isMap_iff.mp hmap).2
  refine ⟨hnot, fun hexact => ?_⟩
  exact hnot (hexact.1.mp (congrArg Prod.snd (haccepted text htext)))

end QuicproAsync.AffinityMap

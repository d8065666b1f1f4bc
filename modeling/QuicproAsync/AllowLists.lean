import QuicproAsync.ConfigValidators

/-!
# Lists of allowed values

`validate_comma_separated_string_from_allowlist.c` checks a list separated by commas, such as the
`allowed_http_methods` of `native_cdn`. It goes through a copy of the string with `php_strtok_r`,
trims each token and looks for it among the allowed values.

The tokenizer passes over empty pieces, but they are allowed anyway: what the function accepts is
what one would accept piece by piece.
-/

namespace QuicproAsync.Configuration

open Php Cors Tokens

/-! ### The validator -/

/-- The search for a token among the allowed values. -/
def isAllowedToken (allowedValues : List CString) (token : Bytes) : Bool :=
  let trimmedToken := strip isTrimmed token
  if 0 < trimmedToken.length then
    allowedValues.any fun allowed => strcasecmpEq trimmedToken allowed.val
  else true

/-- What becomes of `*target`, and the message if the function returns `FAILURE`. -/
def storeAt (target : Option CString) : Except Bytes CString → Option CString × Option Bytes
  | .ok stored => (some stored, none)
  | .error message => (target, some message)

def qpValidateCommaSeparatedStringFromAllowlist (allowedValues : List CString) (value : Zval)
    (target : Option CString) : Option CString × Option Bytes :=
  storeAt target <| stringValidator "Invalid type provided. A string is required."
    "Invalid value provided. The value contains an unsupported algorithm or format."
    (fun inputCopy =>
      forTokens comma (isAllowedToken allowedValues) (inputCopy.length + 1) (some inputCopy)) value

/-- The values that `native_cdn` allows for `allowed_http_methods`. -/
def allowedHttpMethods : List CString :=
  ["GET", "HEAD", "POST", "PUT", "DELETE", "OPTIONS", "PATCH"].map fun method =>
    pestrdup (ascii method)

/-! ### What it accepts -/

/-- White space, as `isspace` has it. -/
def isSpace (byte : Byte) : Bool := byte = 0x20#8 || (0x09#8 ≤ byte && byte ≤ 0x0d#8)

/-- Without the white space around it, the piece is empty or an allowed value, up to the case of
    ASCII letters. -/
def Listed (allowedValues : List CString) (piece : Bytes) : Prop :=
  strip isSpace piece = [] ∨ ∃ allowed ∈ allowedValues,
    (strip isSpace piece).map toLower = allowed.val.map toLower

/-- A string without NUL is stored as it is, or what was there is left. -/
theorem storeAt_stringValidator (wrongType wrongValue : String) (isAllowed : Bytes → Bool)
    (text : CString) (target : Option CString) :
    let result := storeAt target (stringValidator wrongType wrongValue isAllowed (.string text.val))
    (result.2 = none ↔ isAllowed text.val = true) ∧ (result.2 = none → result.1 = some text) ∧
      (result.2 ≠ none → result.1 = target) := by
  have hcopy : cstr text.val = text.val := cstr_of_nulFree text.property
  have hstored : pestrdup text.val = text := Subtype.ext hcopy
  dsimp only [stringValidator]
  rw [hcopy, hstored]
  cases isAllowed text.val with
  | true => simp [storeAt]
  | false => simp [storeAt]

variable {allowedValues : List CString} {piece : Bytes}

theorem isTrimmed_eq_isSpace : ∀ byte : Byte, byte ≠ 0 → isTrimmed byte = isSpace byte := by
  decide

theorem strcasecmpEq_iff {left right : Bytes} (hleft : NulFree left) (hright : NulFree right) :
    strcasecmpEq left right = true ↔ left.map toLower = right.map toLower := by
  rw [strcasecmpEq, cstr_of_nulFree hleft, cstr_of_nulFree hright, decide_eq_true_iff]

theorem isAllowedToken_iff (hfree : NulFree piece) :
    isAllowedToken allowedValues piece = true ↔ Listed allowedValues piece := by
  have hstrip : strip isTrimmed piece = strip isSpace piece :=
    strip_congr fun byte hbyte => isTrimmed_eq_isSpace byte (hfree byte hbyte)
  have htrimmed : NulFree (strip isSpace piece) := hfree.of_sublist (strip_sublist isSpace piece)
  rw [isAllowedToken, hstrip, Listed]
  split
  · next hlong =>
      rw [or_iff_right (List.ne_nil_of_length_pos hlong), List.any_eq_true]
      refine exists_congr fun allowed => and_congr_right fun _ => ?_
      exact strcasecmpEq_iff htrimmed allowed.property
  · next hshort =>
      have hnil : strip isSpace piece = [] :=
        List.eq_nil_of_length_eq_zero (Nat.eq_zero_of_not_pos hshort)
      exact iff_of_true rfl (Or.inl hnil)

/-- The loop over the tokens checks every piece. -/
theorem forTokens_isAllowedToken (text : CString) :
    forTokens comma (isAllowedToken allowedValues) (text.val.length + 1) (some text.val) = true ↔
      ∀ piece ∈ text.val.splitOn comma, Listed allowedValues piece := by
  have hfree : ∀ piece ∈ text.val.splitOn comma, NulFree piece :=
    fun piece hpiece => text.property.of_sublist (sublist_of_mem_splitOn hpiece)
  rw [forTokens_text, List.all_eq_true]
  constructor
  · intro hall piece hpiece
    by_cases hempty : piece = []
    · exact Or.inl (congrArg (strip isSpace) hempty)
    · exact (isAllowedToken_iff (hfree piece hpiece)).mp
        (hall piece (mem_tokens.mpr ⟨hpiece, hempty⟩))
  · intro hall piece htoken
    have hpiece := (mem_tokens.mp htoken).1
    exact (isAllowedToken_iff (hfree piece hpiece)).mpr (hall piece hpiece)

/-- **A list is accepted** if and only if each of its pieces is listed: for every string without
    NUL, all allowed values and whatever was stored before. An accepted string is stored as it is,
    and a rejected one leaves what was stored. -/
theorem comma_list_accepted_iff (allowedValues : List CString) (text : CString)
    (target : Option CString) :
    let result := qpValidateCommaSeparatedStringFromAllowlist allowedValues (.string text.val)
      target
    (result.2 = none ↔ ∀ piece ∈ text.val.splitOn comma, Listed allowedValues piece) ∧
      (result.2 = none → result.1 = some text) ∧ (result.2 ≠ none → result.1 = target) := by
  rw [← forTokens_isAllowedToken text]
  exact storeAt_stringValidator ..

/-- Two methods in any case, with blanks around them and empty pieces between them. -/
example : qpValidateCommaSeparatedStringFromAllowlist allowedHttpMethods
    (.string (ascii " get,, Post ,")) none = (some (pestrdup (ascii " get,, Post ,")), none) := by
  decide +kernel

end QuicproAsync.Configuration

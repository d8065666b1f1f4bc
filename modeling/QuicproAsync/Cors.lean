import QuicproAsync.PhpValue
import QuicproAsync.Tokens

/-!
# Cross-origin requests

`cors.c` enforces the CORS policy of a server, `validate_cors_origin_string.c` and the INI
handler of `security_and_traffic/ini.c` check a policy before it is set. A policy is `*` or
a list of origins separated by commas.

The enforcer compares the origin of a request with each entry, without the spaces and tabs
around it; this is what the list means. The validator splits the same string with
`strtok`, strips newlines, carriage returns, vertical tabs and form feeds as well, and
passes over entries of which nothing is left. So there are policies that it accepts and
that mean something else to the enforcer.

The accessors of requests and responses are not part of the repository. What those of a
request return is a parameter, and the calls of those of a response are logged: the enforcer
does nothing else to a response, so it leaves it as it was if and only if the log is empty.
-/

namespace QuicproAsync.Cors

open Php Tokens

/-! ### The enforcer -/

def comma : Byte := 0x2c#8

/-- The loop of `is_origin_allowed` over what is left of the policy. -/
def originLoop (origin : Bytes) : Nat → Bytes → Bool
  | 0, _ => false
  | fuel + 1, policy =>
    if policy = [] then false
    else
      let entry := policy.dropWhile isBlank
      let trimmed := (entry.takeWhile (· ≠ comma)).rdropWhile isBlank
      if trimmed.length = origin.length && strncmpEq trimmed.length origin entry then true
      else
        match entry.dropWhile (· ≠ comma) with
        | [] => false
        | _ :: rest => originLoop origin fuel rest

/-- Every turn of the loop takes a byte of the policy away. -/
def isOriginAllowed (origin allowedOrigins : CString) : Bool :=
  if allowedOrigins.val = ascii "*" then true
  else originLoop origin.val (allowedOrigins.val.length + 1) allowedOrigins.val

/-- What `quicpro_request_get_method` and `quicpro_request_get_header` return for a request. -/
structure Request where
  getMethod : CString
  getHeader : Bytes → Option CString

/-- A call of `quicpro_response_add_header` or `quicpro_response_set_status`. -/
inductive ResponseCall where
  | addHeader (name value : Bytes)
  | setStatus (status : Nat)
deriving DecidableEq, Repr

inductive CorsResult where
  | requestOk
  | requestForbidden
  | preflightHandled
deriving DecidableEq, Repr

def allowOrigin : Bytes := ascii "Access-Control-Allow-Origin"

/-- The answer to a preflight request. -/
def answerPreflight : List ResponseCall :=
  [ .setStatus 204,
    .addHeader (ascii "Access-Control-Allow-Methods")
      (ascii "GET, POST, PUT, DELETE, PATCH, OPTIONS"),
    .addHeader (ascii "Access-Control-Allow-Headers") (ascii "*"),
    .addHeader (ascii "Access-Control-Max-Age") (ascii "86400") ]

/-- The part of `quicpro_internal_handle_cors` for an origin that is allowed. -/
def allowCors (request : Request) (origin : CString) : CorsResult × List ResponseCall :=
  let calls := [.addHeader allowOrigin origin.val, .addHeader (ascii "Vary") (ascii "Origin")]
  if request.getMethod.val = ascii "OPTIONS" then (.preflightHandled, calls ++ answerPreflight)
  else (.requestOk, calls)

/-- The policy is `config->cors_allowed_origins`, which may be NULL. -/
def quicproInternalHandleCors (request : Request) (corsAllowedOrigins : Option CString) :
    CorsResult × List ResponseCall :=
  match request.getHeader (ascii "origin") with
  | none => (.requestOk, [])
  | some origin =>
    if corsAllowedOrigins.any (isOriginAllowed origin) then allowCors request origin
    else (.requestForbidden, [])

/-! ### What a policy means -/

variable {origin policy : Bytes}

theorem isBlank_comma : isBlank comma = false := by decide

/-- The comparison of lengths and bytes is equality with the trimmed entry. -/
theorem matches_iff (hfree : NulFree origin) {entry trimmed : Bytes}
    (htrimmed : trimmed <+: entry) :
    (trimmed.length = origin.length && strncmpEq trimmed.length origin entry) = true ↔
      trimmed = origin := by
  constructor
  · intro hmatches
    obtain ⟨hlength, hbytes⟩ := Bool.and_eq_true_iff.mp hmatches
    have hsame := of_decide_eq_true hlength
    rw [hsame, strncmpEq_length hfree] at hbytes
    exact (List.prefix_of_prefix_length_le htrimmed hbytes hsame.le).eq_of_length hsame
  · rintro rfl
    rw [(strncmpEq_length hfree).mpr htrimmed]
    simp

/-- One turn of the loop, on the next entry of the policy. -/
theorem originLoop_succ {fuel : Nat} (hfree : NulFree origin) (hne : policy ≠ []) :
    originLoop origin (fuel + 1) policy = true ↔
      strip isBlank (policy.takeWhile (· ≠ comma)) = origin ∨
        ∃ rest, policy.dropWhile (· ≠ comma) = comma :: rest ∧
          originLoop origin fuel rest = true := by
  obtain ⟨hentry, hrest⟩ := takeWhile_dropWhile isBlank_comma policy
  have htrimmed : strip isBlank (policy.takeWhile (· ≠ comma)) <+: policy.dropWhile isBlank := by
    unfold strip
    rw [← hentry]
    exact (List.rdropWhile_prefix _ _).trans (List.takeWhile_prefix _)
  have hmatch := matches_iff hfree htrimmed
  rw [originLoop, if_neg hne]
  dsimp only
  rw [hentry, hrest]
  change (if ((strip isBlank (policy.takeWhile (· ≠ comma))).length = origin.length &&
    strncmpEq (strip isBlank (policy.takeWhile (· ≠ comma))).length origin
      (policy.dropWhile isBlank)) = true then true else _) = true ↔ _
  by_cases hsame : strip isBlank (policy.takeWhile (· ≠ comma)) = origin
  · rw [if_pos (hmatch.mpr hsame)]
    exact iff_of_true rfl (Or.inl hsame)
  · rw [if_neg fun hyes => hsame (hmatch.mp hyes), or_iff_right hsame]
    rcases next_separator comma policy with ⟨-, -, hdrop⟩ | ⟨rest, -, hdrop⟩
    · rw [hdrop]
      simp
    · rw [hdrop]
      constructor
      · intro hlater
        exact ⟨rest, rfl, hlater⟩
      · rintro ⟨later, hlater, hallowed⟩
        cases hlater
        exact hallowed

/-- The loop finds the entries of the policy that it visits. -/
theorem originLoop_iff (hfree : NulFree origin) {fuel : Nat} (hfuel : policy.length < fuel) :
    originLoop origin fuel policy = true ↔
      ∃ entry ∈ scanned comma policy, strip isBlank entry = origin := by
  induction fuel generalizing policy with
  | zero => exact absurd hfuel (Nat.not_lt_zero _)
  | succ fuel ih =>
    rcases eq_or_ne policy [] with rfl | hne
    · rw [scanned_nil]
      exact iff_of_false Bool.false_ne_true nofun
    · rw [originLoop_succ hfree hne]
      rcases next_separator comma policy with ⟨hnot, htake, hdrop⟩ | ⟨rest, hpolicy, hdrop⟩
      · rw [scanned_last hne hnot, htake, hdrop]
        simp
      · have hshorter : rest.length < fuel := by
          have hlength := congrArg List.length hpolicy
          rw [List.length_append, List.length_cons] at hlength
          omega
        rw [hpolicy, scanned_cons (not_mem_takeWhile comma policy), ← hpolicy, hdrop]
        simp [ih hshorter]

theorem isOriginAllowed_iff (origin allowedOrigins : CString) :
    isOriginAllowed origin allowedOrigins = true ↔ allowedOrigins.val = ascii "*" ∨
      ∃ entry ∈ scanned comma allowedOrigins.val, strip isBlank entry = origin.val := by
  unfold isOriginAllowed
  by_cases hwild : allowedOrigins.val = ascii "*"
  · rw [if_pos hwild]
    exact iff_of_true rfl (Or.inl hwild)
  · rw [if_neg hwild, originLoop_iff origin.property (Nat.lt_succ_self _), or_iff_right hwild]

/-- The policy is `*`, or the origin is one of its entries without the spaces and tabs around
    it. -/
def Permits (policy origin : Bytes) : Prop :=
  policy = ascii "*" ∨ ∃ entry ∈ policy.splitOn comma, strip isBlank entry = origin

/-- An empty entry that the loop does not visit makes no difference to an origin that is not
    empty. -/
theorem isOriginAllowed_iff_permits {origin allowedOrigins : CString} (hne : origin.val ≠ []) :
    isOriginAllowed origin allowedOrigins = true ↔ Permits allowedOrigins.val origin.val := by
  rw [isOriginAllowed_iff]
  refine or_congr_right (exists_congr fun entry => and_congr_left fun hentry => ?_)
  apply mem_scanned
  rintro rfl
  exact hne hentry.symm

/-- The call adds an `Access-Control-Allow-Origin` header. -/
def ResponseCall.allowsOrigin : ResponseCall → Bool
  | .addHeader name _ => name = allowOrigin
  | .setStatus _ => false

/-- Of the headers that are added for an allowed origin, one is about the origin. -/
theorem allowCors_spec (request : Request) (origin : CString) :
    (allowCors request origin).1 ≠ .requestForbidden ∧
      (allowCors request origin).2.filter ResponseCall.allowsOrigin =
        [.addHeader allowOrigin origin.val] := by
  have hanswer : answerPreflight.filter ResponseCall.allowsOrigin = [] := by decide +kernel
  have hvary : ascii "Vary" ≠ allowOrigin := by decide
  unfold allowCors
  split
  · refine ⟨nofun, ?_⟩
    rw [List.filter_append, hanswer]
    simp [ResponseCall.allowsOrigin, hvary]
  · refine ⟨nofun, ?_⟩
    simp [ResponseCall.allowsOrigin, hvary]

theorem quicproInternalHandleCors_origin {request : Request} {origin : CString}
    (horigin : request.getHeader (ascii "origin") = some origin) (policy : CString) :
    quicproInternalHandleCors request (some policy) =
      if isOriginAllowed origin policy then allowCors request origin
      else (.requestForbidden, []) := by
  unfold quicproInternalHandleCors
  rw [horigin]
  rfl

/-- For a request with an origin the response gets one `Access-Control-Allow-Origin` header,
    with that origin, if the policy permits the origin; otherwise the request is forbidden and
    nothing is done to the response. Without an origin nothing is done to it, either. -/
theorem cors_enforced (request : Request) (policy : CString) :
    (∀ origin, request.getHeader (ascii "origin") = some origin → origin.val ≠ [] →
      (Permits policy.val origin.val →
        (quicproInternalHandleCors request (some policy)).1 ≠ .requestForbidden ∧
        (quicproInternalHandleCors request (some policy)).2.filter ResponseCall.allowsOrigin =
          [.addHeader allowOrigin origin.val]) ∧
      (¬ Permits policy.val origin.val →
        quicproInternalHandleCors request (some policy) = (.requestForbidden, []))) ∧
    (request.getHeader (ascii "origin") = none →
      quicproInternalHandleCors request (some policy) = (.requestOk, [])) := by
  refine ⟨?_, ?_⟩
  · intro origin horigin hne
    rw [quicproInternalHandleCors_origin horigin, ← isOriginAllowed_iff_permits hne]
    refine ⟨?_, ?_⟩
    · intro hallowed
      rw [if_pos hallowed]
      exact allowCors_spec request origin
    · intro hforbidden
      exact if_neg hforbidden
  · intro hnone
    unfold quicproInternalHandleCors
    rw [hnone]

/-- A C string from a text without NUL. -/
def cText (text : String) : CString := ⟨cstr (ascii text), nulFree_cstr _⟩

/-- A request from one origin. -/
def requestFrom (origin : String) : Request where
  getMethod := cText "GET"
  getHeader name := if name = ascii "origin" then some (cText origin) else none

theorem cors_enforced_second_entry :
    (quicproInternalHandleCors (requestFrom "https://b")
        (some (cText "https://a , https://b"))).1 ≠ .requestForbidden ∧
      (quicproInternalHandleCors (requestFrom "https://b")
          (some (cText "https://a , https://b"))).2.filter ResponseCall.allowsOrigin =
        [.addHeader allowOrigin (cText "https://b").val] := by
  have hpermits : Permits (cText "https://a , https://b").val (cText "https://b").val :=
    Or.inr ⟨ascii " https://b", by decide +kernel, by decide +kernel⟩
  exact ((cors_enforced (requestFrom "https://b") (cText "https://a , https://b")).1
    (cText "https://b") rfl (by decide +kernel)).1 hpermits

/-! ### The validator -/

/-- The fields of a `php_url` that are read. -/
structure PhpUrl where
  scheme : Option Bytes
  host : Option Bytes

/-- `strcasecmp(left, right) == 0`. -/
def strcasecmpEq (left right : Bytes) : Bool :=
  (cstr left).map toLower = (cstr right).map toLower

/-- What `php_trim` strips here. The length that is passed for the set includes the NUL. -/
def isTrimmed (byte : Byte) : Bool :=
  isBlank byte || byte = 0x0a#8 || byte = 0x0d#8 || byte = 0x0b#8 || byte = 0x0c#8 || byte = 0#8

/-- The tokens that `php_strtok_r` gives for the delimiter `,`: none of them is empty. -/
def strtokComma (text : Bytes) : List Bytes := (text.splitOn comma).filter (· ≠ [])

section Validator

variable (phpUrlParseEx : Bytes → Option PhpUrl)

def isValidOrigin (origin : Bytes) : Bool :=
  match phpUrlParseEx origin with
  | some ⟨some scheme, some _⟩ =>
    strcasecmpEq scheme (ascii "http") || strcasecmpEq scheme (ascii "https")
  | _ => false

/-- The loop over the tokens stops at the first that is not valid. -/
def areValidTokens : List Bytes → Bool
  | [] => true
  | token :: rest =>
    if strip isTrimmed token = [] then areValidTokens rest
    else if isValidOrigin phpUrlParseEx (strip isTrimmed token) then areValidTokens rest
    else false

def invalidType : Bytes :=
  ascii "Invalid type provided for CORS origin policy. A string is required."

def invalidValue : Bytes :=
  ascii ("Invalid value provided for CORS origin policy. Value must be '*' or a comma-separated " ++
    "list of valid origins (e.g., 'https://example.com:8443').")

/-- What the validator and the INI handler have in common. The result is the copied policy, or
    the message of the exception. -/
def checkPolicy (input : Bytes) : Except Bytes CString :=
  if cstr input = ascii "*" || areValidTokens phpUrlParseEx (strtokComma (cstr input)) then
    .ok ⟨cstr input, nulFree_cstr input⟩
  else .error invalidValue

def qpValidateCorsOriginString : Zval → Except Bytes CString
  | .string input => checkPolicy phpUrlParseEx input
  | _ => .error invalidType

def onUpdateCorsOrigins (newValue : Bytes) : Except Bytes CString :=
  checkPolicy phpUrlParseEx newValue

end Validator

/-- The entries that the validator checks. -/
def checkedEntries (policy : Bytes) : List Bytes :=
  ((strtokComma policy).map (strip isTrimmed)).filter (· ≠ [])

variable {phpUrlParseEx : Bytes → Option PhpUrl}

theorem areValidTokens_iff (tokens : List Bytes) :
    areValidTokens phpUrlParseEx tokens = true ↔
      ∀ entry ∈ (tokens.map (strip isTrimmed)).filter (· ≠ []),
        isValidOrigin phpUrlParseEx entry = true := by
  induction tokens with
  | nil => simp [areValidTokens]
  | cons token rest ih =>
    unfold areValidTokens
    by_cases hempty : strip isTrimmed token = []
    · simp [hempty, ih]
    · by_cases hvalid : isValidOrigin phpUrlParseEx (strip isTrimmed token) = true
      · simp [hempty, hvalid, ih]
      · simp [hempty, hvalid]

/-- The validator accepts a list if and only if each entry that it checks is valid. -/
theorem qpValidateCorsOriginString_iff (policy : CString) (hlist : policy.val ≠ ascii "*") :
    qpValidateCorsOriginString phpUrlParseEx (.string policy.val) = .ok policy ↔
      ∀ entry ∈ checkedEntries policy.val, isValidOrigin phpUrlParseEx entry = true := by
  have hsame : cstr policy.val = policy.val := cstr_of_nulFree policy.property
  unfold qpValidateCorsOriginString checkPolicy checkedEntries
  rw [← areValidTokens_iff]
  simp only [hsame, hlist, decide_false, Bool.false_or]
  split
  · rename_i hvalid
    exact iff_of_true rfl hvalid
  · rename_i hvalid
    exact iff_of_false nofun hvalid

/-! ### Two readings of a list -/

theorem isTrimmed_of_isBlank (byte : Byte) (hblank : isBlank byte = true) :
    isTrimmed byte = true := by
  unfold isTrimmed
  rw [hblank]
  rfl

theorem strip_isTrimmed_nil : strip isTrimmed [] = [] := rfl

theorem mem_checkedEntries {policy entry : Bytes} :
    entry ∈ checkedEntries policy ↔ entry ≠ [] ∧
      ∃ piece ∈ scanned comma policy, strip isTrimmed piece = entry := by
  unfold checkedEntries strtokComma
  rw [List.mem_filter, List.mem_map, decide_eq_true_iff, and_comm]
  refine and_congr_right fun hne => exists_congr fun piece => and_congr_left fun hentry => ?_
  have hpiece : piece ≠ [] := by
    rintro rfl
    exact hne (hentry.symm.trans strip_isTrimmed_nil)
  rw [mem_scanned hpiece, List.mem_filter]
  simp [hpiece]

/-- Both readings take the same of the piece, and it is not empty. -/
def Plain (piece : Bytes) : Prop :=
  strip isBlank piece ≠ [] ∧ Bare isTrimmed (strip isBlank piece)

theorem Plain.strip_eq {piece : Bytes} (hplain : Plain piece) :
    strip isTrimmed piece = strip isBlank piece :=
  strip_wider isTrimmed_of_isBlank hplain.1 hplain.2

theorem nulFree_of_scanned {policy : CString} {piece : Bytes}
    (hpiece : piece ∈ scanned comma policy.val) : NulFree piece :=
  policy.property.of_sublist (sublist_of_mem_splitOn (mem_splitOn_of_scanned hpiece))

/-- The enforcer allows exactly the entries that the validator has checked if and only if each
    entry that it visits has something left without the spaces and tabs around it, and that
    neither begins nor ends with another character that the validator strips. -/
theorem enforced_as_checked_iff (phpUrlParseEx : Bytes → Option PhpUrl) (policy : CString)
    (hlist : policy.val ≠ ascii "*") :
    (qpValidateCorsOriginString phpUrlParseEx (.string policy.val) = .ok policy ↔
      ∀ entry ∈ checkedEntries policy.val, isValidOrigin phpUrlParseEx entry = true) ∧
    ((∀ origin : CString,
        isOriginAllowed origin policy = true ↔ origin.val ∈ checkedEntries policy.val) ↔
      ∀ piece ∈ scanned comma policy.val, Plain piece) := by
  refine ⟨qpValidateCorsOriginString_iff policy hlist, ?_, ?_⟩
  · intro hsame piece hpiece
    have hfree : NulFree (strip isBlank piece) :=
      (nulFree_of_scanned hpiece).of_sublist (strip_sublist isBlank piece)
    have hallowed := (isOriginAllowed_iff ⟨strip isBlank piece, hfree⟩ policy).mpr
      (Or.inr ⟨piece, hpiece, rfl⟩)
    obtain ⟨hne, other, -, hother⟩ := mem_checkedEntries.mp ((hsame _).mp hallowed)
    have hstripped : strip isTrimmed other = strip isBlank piece := hother
    refine ⟨hne, ?_⟩
    rw [← hstripped]
    exact bare_strip isTrimmed other
  · intro hplain origin
    rw [isOriginAllowed_iff, or_iff_right hlist, mem_checkedEntries]
    constructor
    · rintro ⟨piece, hpiece, horigin⟩
      rw [← horigin]
      exact ⟨(hplain piece hpiece).1, piece, hpiece, (hplain piece hpiece).strip_eq⟩
    · rintro ⟨-, piece, hpiece, horigin⟩
      exact ⟨piece, hpiece, (hplain piece hpiece).strip_eq.symm.trans horigin⟩

theorem enforced_as_checked_two_origins :
    (cText "https://a, https://b").val ≠ ascii "*" ∧
      ∀ origin : CString, isOriginAllowed origin (cText "https://a, https://b") = true ↔
        origin.val ∈ checkedEntries (cText "https://a, https://b").val := by
  have hlist : (cText "https://a, https://b").val ≠ ascii "*" := by decide +kernel
  refine ⟨hlist, ((enforced_as_checked_iff (fun _ => none) _ hlist).2).mpr ?_⟩
  have hscanned : scanned comma (cText "https://a, https://b").val =
      [ascii "https://a", ascii " https://b"] := by decide +kernel
  rw [hscanned]
  intro piece hpiece
  rcases List.mem_cons.mp hpiece with rfl | hrest
  · exact ⟨by decide +kernel, by decide +kernel, by decide +kernel⟩
  · rw [List.mem_singleton.mp hrest]
    exact ⟨by decide +kernel, by decide +kernel, by decide +kernel⟩

/-- A list with a line break after the comma. -/
def brokenList : CString :=
  ⟨ascii "https://a," ++ 0x0a#8 :: ascii "https://b", by decide +kernel⟩

/-- The validator accepts the list and checks both origins; the enforcer allows the second one
    only with the line break in front of it. -/
theorem checked_origin_not_allowed :
    qpValidateCorsOriginString (fun _ => some ⟨some (ascii "https"), some (ascii "b")⟩)
        (.string brokenList.val) = .ok brokenList ∧
      ascii "https://b" ∈ checkedEntries brokenList.val ∧
      isOriginAllowed (cText "https://b") brokenList = false ∧
      isOriginAllowed ⟨0x0a#8 :: ascii "https://b", by decide +kernel⟩ brokenList = true := by
  refine ⟨rfl, by decide +kernel, by decide +kernel, by decide +kernel⟩

end QuicproAsync.Cors

import QuicproAsync.Cors
import QuicproAsync.Decimal

/-!
# The checks on configuration values

A setting of the configuration is a truth value, an integer or a string. It can be set in two ways:
by a directive of `php.ini`, whose handler reads a text, and by user code, whose value goes through
one of the validators under `validation/config_param`. Each gives the value that is stored, or the
message of an exception. Strings are stored as C strings.

The conversions of texts belong to PHP; what is known of them is that they read back a printed
number, and the two truth values `1` and `0`.
-/

namespace QuicproAsync.Configuration

open Php Cors

/-! ### Values -/

inductive Kind where
  | bool
  | long
  | string
deriving DecidableEq

/-- The type of a field of one of the configuration structs. -/
abbrev Kind.Value : Kind → Type
  | .bool => Bool
  | .long => BitVec 64
  | .string => CString

/-- `pestrdup(Z_STRVAL_P(value), 1)`. -/
def pestrdup (text : Bytes) : CString := ⟨cstr text, nulFree_cstr text⟩

/-- The functions of PHP that the handlers and validators call. -/
structure IniHost where
  zendAtol : Bytes → BitVec 64
  /-- What `OnUpdateLong` reads. -/
  zendIniParseQuantity : Bytes → BitVec 64
  zendIniParseBool : Bytes → Bool
  phpUrlParseEx : Bytes → Option PhpUrl
  zendAtol_decimal : ∀ n : BitVec 64, zendAtol (ascii (toString n.toInt)) = n
  zendIniParseQuantity_decimal : ∀ n : BitVec 64,
    zendIniParseQuantity (ascii (toString n.toInt)) = n
  zendIniParseBool_one : zendIniParseBool (ascii "1") = true
  zendIniParseBool_zero : zendIniParseBool (ascii "0") = false

/-! ### The validators of user code -/

def qpValidateBool : Zval → Except Bytes Bool
  | .bool value => .ok value
  | _ => .error (ascii "Invalid value provided. A boolean (true/false) is required.")

/-- An integer of a range, with the messages for a value of another type and for one that is out of
    the range. -/
def longValidator (wrongType wrongValue : String) (isAllowed : Int → Bool) :
    Zval → Except Bytes (BitVec 64)
  | .long n => if isAllowed n.toInt then .ok n else .error (ascii wrongValue)
  | _ => .error (ascii wrongType)

def isPositive (n : Int) : Bool := 0 < n

def isNonNegative (n : Int) : Bool := 0 ≤ n

def isBetween (low high n : Int) : Bool := low ≤ n && n ≤ high

def qpValidatePositiveLong : Zval → Except Bytes (BitVec 64) :=
  longValidator "Invalid value provided. A positive integer greater than zero is required."
    "Invalid value provided. A positive integer greater than zero is required." isPositive

def qpValidateNonNegativeLong : Zval → Except Bytes (BitVec 64) :=
  longValidator "Invalid type provided. An integer is required."
    "Invalid value provided. A non-negative integer is required." isNonNegative

def qpValidateNicenessValue : Zval → Except Bytes (BitVec 64) :=
  longValidator "Invalid type provided for niceness value. An integer is required."
    "Invalid value provided for niceness. Value must be between -20 and 19." (isBetween (-20) 19)

/-- A string of a set, with the messages for a value of another type and for one that is not in the
    set. -/
def stringValidator (wrongType wrongValue : String) (isAllowed : Bytes → Bool) :
    Zval → Except Bytes CString
  | .string text =>
    if isAllowed (cstr text) then .ok (pestrdup text) else .error (ascii wrongValue)
  | _ => .error (ascii wrongType)

def qpValidateString : Zval → Except Bytes CString :=
  stringValidator "Invalid value provided. Expected a plain PHP string." "" fun _ => true

def qpValidateGenericString : Zval → Except Bytes CString :=
  stringValidator "Invalid type provided. A string is required." "" fun _ => true

def qpValidateStringFromAllowlist (allowed : List String) : Zval → Except Bytes CString :=
  stringValidator "Invalid type provided. A string is required."
    "Invalid value provided. The value is not one of the allowed options."
    fun text => allowed.any fun option => strcasecmpEq text (ascii option)

def qpValidateSchedulerPolicy : Zval → Except Bytes CString :=
  stringValidator "Invalid type provided for scheduler policy. A string is required."
    "Invalid value for scheduler policy. Must be one of 'other', 'fifo', or 'rr'."
    fun policy => policy = ascii "other" || policy = ascii "fifo" || policy = ascii "rr"

/-- The validators, by the kind of setting that they are for. -/
inductive Validator : Kind → Type where
  | bool : Validator .bool
  | positiveLong : Validator .long
  | nonNegativeLong : Validator .long
  | nicenessValue : Validator .long
  | string : Validator .string
  | genericString : Validator .string
  | stringFromAllowlist (allowed : List String) : Validator .string
  | schedulerPolicy : Validator .string
  | corsOriginString : Validator .string

def Validator.run (host : IniHost) : {kind : Kind} → Validator kind → Zval →
    Except Bytes kind.Value
  | _, .bool => qpValidateBool
  | _, .positiveLong => qpValidatePositiveLong
  | _, .nonNegativeLong => qpValidateNonNegativeLong
  | _, .nicenessValue => qpValidateNicenessValue
  | _, .string => qpValidateString
  | _, .genericString => qpValidateGenericString
  | _, .stringFromAllowlist allowed => qpValidateStringFromAllowlist allowed
  | _, .schedulerPolicy => qpValidateSchedulerPolicy
  | _, .corsOriginString => qpValidateCorsOriginString host.phpUrlParseEx

/-! ### The handlers of directives -/

/-- An integer of a range, with the message for one that is out of it. -/
def longHandler (wrongValue : String) (isAllowed : Int → Bool) (host : IniHost)
    (newValue : Bytes) : Except Bytes (BitVec 64) :=
  if isAllowed (host.zendAtol newValue).toInt then .ok (host.zendAtol newValue)
  else .error (ascii wrongValue)

/-- The handler of `tls_and_crypto/ini.c`. -/
def onUpdatePositiveLong : IniHost → Bytes → Except Bytes (BitVec 64) :=
  longHandler "A positive integer greater than zero is required for this directive." isPositive

def onUpdateRateLimiterValue : IniHost → Bytes → Except Bytes (BitVec 64) :=
  longHandler ("Invalid value provided for a rate-limiter directive. " ++
    "A non-negative integer is required.") isNonNegative

def onUpdateQuicPositiveLong : IniHost → Bytes → Except Bytes (BitVec 64) :=
  longHandler "Invalid value for a QUIC transport directive. A positive integer is required."
    isPositive

def onUpdateQuicNonNegativeLong : IniHost → Bytes → Except Bytes (BitVec 64) :=
  longHandler "Invalid value for a QUIC transport directive. A non-negative integer is required."
    isNonNegative

def onUpdateAckDelayExponent : IniHost → Bytes → Except Bytes (BitVec 64) :=
  longHandler "Invalid value for ACK delay exponent. Must be an integer between 0 and 20."
    (isBetween 0 20)

def onUpdateClusterNonNegativeLong : IniHost → Bytes → Except Bytes (BitVec 64) :=
  longHandler ("Invalid value provided for a cluster directive. " ++
    "A non-negative integer is required.") isNonNegative

def onUpdateCcAlgorithm (newValue : Bytes) : Except Bytes CString :=
  if ["cubic", "bbr"].any fun option => strcasecmpEq newValue (ascii option) then
    .ok (pestrdup newValue)
  else .error (ascii "Invalid value for CC algorithm. Must be 'cubic' or 'bbr'.")

/-- The handlers, by the kind of setting that they are for. `OnUpdateBool`, `OnUpdateLong` and
    `OnUpdateString` are those of PHP. -/
inductive IniHandler : Kind → Type where
  | bool : IniHandler .bool
  | securityPolicy : IniHandler .bool
  | long : IniHandler .long
  | positiveLong : IniHandler .long
  | rateLimiterValue : IniHandler .long
  | quicPositiveLong : IniHandler .long
  | quicNonNegativeLong : IniHandler .long
  | ackDelayExponent : IniHandler .long
  | clusterNonNegativeLong : IniHandler .long
  | string : IniHandler .string
  | ccAlgorithm : IniHandler .string
  | corsOrigins : IniHandler .string

def IniHandler.run (host : IniHost) : {kind : Kind} → IniHandler kind → Bytes →
    Except Bytes kind.Value
  | _, .bool => fun newValue => .ok (host.zendIniParseBool newValue)
  | _, .securityPolicy => fun newValue => .ok (host.zendIniParseBool newValue)
  | _, .long => fun newValue => .ok (host.zendIniParseQuantity newValue)
  | _, .positiveLong => onUpdatePositiveLong host
  | _, .rateLimiterValue => onUpdateRateLimiterValue host
  | _, .quicPositiveLong => onUpdateQuicPositiveLong host
  | _, .quicNonNegativeLong => onUpdateQuicNonNegativeLong host
  | _, .ackDelayExponent => onUpdateAckDelayExponent host
  | _, .clusterNonNegativeLong => onUpdateClusterNonNegativeLong host
  | _, .string => fun newValue => .ok (pestrdup newValue)
  | _, .ccAlgorithm => onUpdateCcAlgorithm
  | _, .corsOrigins => onUpdateCorsOrigins host.phpUrlParseEx

/-! ### The integers that are let through -/

/-- The range of a validator for integers. -/
def Validator.range : Validator .long → Int → Bool
  | .positiveLong => isPositive
  | .nonNegativeLong => isNonNegative
  | .nicenessValue => isBetween (-20) 19

/-- The range of a handler for integers. -/
def IniHandler.range : IniHandler .long → Int → Bool
  | .long => fun _ => true
  | .positiveLong => isPositive
  | .rateLimiterValue => isNonNegative
  | .quicPositiveLong => isPositive
  | .quicNonNegativeLong => isNonNegative
  | .ackDelayExponent => isBetween 0 20
  | .clusterNonNegativeLong => isNonNegative

variable {host : IniHost}

theorem longValidator_eq_ok {wrongType wrongValue : String} {isAllowed : Int → Bool}
    {n : BitVec 64} :
    (∃ value, longValidator wrongType wrongValue isAllowed value = .ok n) ↔
      isAllowed n.toInt = true := by
  constructor
  · rintro ⟨value, hok⟩
    unfold longValidator at hok
    split at hok
    · split at hok
      · next hallowed =>
          cases hok
          exact hallowed
      · exact nomatch hok
    · exact nomatch hok
  · intro hallowed
    exact ⟨.long n, if_pos hallowed⟩

theorem isAllowed_of_longHandler {wrongValue : String} {isAllowed : Int → Bool} {text : Bytes}
    {n : BitVec 64} (hok : longHandler wrongValue isAllowed host text = .ok n) :
    isAllowed n.toInt = true := by
  unfold longHandler at hok
  split at hok
  · next hallowed =>
      cases hok
      exact hallowed
  · exact nomatch hok

theorem Validator.run_long (host : IniHost) (validator : Validator .long) (n : BitVec 64) :
    (∃ value, validator.run host value = .ok n) ↔ validator.range n.toInt = true := by
  cases validator <;> exact longValidator_eq_ok

/-- A handler reads a printed number of its range. -/
theorem IniHandler.run_decimal {handler : IniHandler .long} {n : BitVec 64} {text : Bytes}
    (htext : text = ascii (toString n.toInt)) (hrange : handler.range n.toInt = true) :
    handler.run host text = .ok n := by
  subst htext
  have hlong : ∀ wrongValue isAllowed, isAllowed n.toInt = true →
      longHandler wrongValue isAllowed host (ascii (toString n.toInt)) = .ok n := by
    intro wrongValue isAllowed hallowed
    rw [longHandler, host.zendAtol_decimal, if_pos hallowed]
  cases handler with
  | long => exact congrArg Except.ok (host.zendIniParseQuantity_decimal n)
  | _ => exact hlong _ _ hrange

theorem IniHandler.run_long (host : IniHost) (handler : IniHandler .long) (n : BitVec 64) :
    (∃ text, handler.run host text = .ok n) ↔ handler.range n.toInt = true := by
  constructor
  · rintro ⟨text, hok⟩
    cases handler with
    | long => rfl
    | _ => exact isAllowed_of_longHandler hok
  · intro hrange
    exact ⟨_, run_decimal rfl hrange⟩

/-! ### A host -/

/-- A host that reads decimal numbers, takes `1` for true and every other text for false, and finds
    no scheme in any text. -/
def decimalHost : IniHost where
  zendAtol text := BitVec.ofInt 64 (decimalValue text)
  zendIniParseQuantity text := BitVec.ofInt 64 (decimalValue text)
  zendIniParseBool text := text = ascii "1"
  phpUrlParseEx _ := none
  zendAtol_decimal n := by rw [decimalValue_ascii, BitVec.ofInt_toInt]
  zendIniParseQuantity_decimal n := by rw [decimalValue_ascii, BitVec.ofInt_toInt]
  zendIniParseBool_one := by decide
  zendIniParseBool_zero := by decide

end QuicproAsync.Configuration

import Mathlib.Algebra.Group.Int.Defs
import Mathlib.Algebra.Group.Nat.Defs
import Mathlib.Data.List.TakeWhile
import QuicproAsync.OrderedMap

/-!
# PHP values as the extension sees them

The extension works on `zval`s through the Zend API. This module models the values
(with reference counting left out: a value is what a reader of the array would
see), the insertion-ordered `HashTable`, C strings, and the conversions that the
codec calls. Conversions that PHP implements with floating-point arithmetic or with
object handlers are not part of the repository; they are the fields of `Host`.
-/

namespace QuicproAsync.Php

abbrev Byte := BitVec 8

abbrev Bytes := List Byte

/-- The bytes of an ASCII text. -/
def ascii (text : String) : Bytes := text.toList.map fun c => BitVec.ofNat 8 c.toNat

/-! ### C strings -/

/-- What a `char *` pointing at these bytes denotes: everything before the first NUL. -/
def cstr (bytes : Bytes) : Bytes := bytes.takeWhile (· ≠ 0)

def NulFree (bytes : Bytes) : Prop := ∀ byte ∈ bytes, byte ≠ 0

instance (bytes : Bytes) : Decidable (NulFree bytes) :=
  inferInstanceAs (Decidable (∀ byte ∈ bytes, byte ≠ 0))

/-- `strncmp(left, right, count) == 0` on NUL-terminated strings; the terminator of
    each string is the zero read past the end of the list. -/
def strncmpEq : Nat → Bytes → Bytes → Bool
  | 0, _, _ => true
  | count + 1, left, right =>
    let x := left.headD 0
    let y := right.headD 0
    if x ≠ y then false
    else if x = 0 then true
    else strncmpEq count left.tail right.tail

/-- `tolower` of the C locale. -/
def toLower (byte : Byte) : Byte := if 0x41#8 ≤ byte && byte ≤ 0x5a#8 then byte + 0x20#8 else byte

/-- A space or a tab. -/
def isBlank (byte : Byte) : Bool := byte = 0x20#8 || byte = 0x09#8

variable {bytes : Bytes}

theorem cstr_of_nulFree (hfree : NulFree bytes) : cstr bytes = bytes := by
  rw [cstr, List.takeWhile_eq_self_iff]
  intro byte hbyte
  simpa using hfree byte hbyte

theorem nulFree_cstr (bytes : Bytes) : NulFree (cstr bytes) := by
  intro byte hbyte
  simpa using List.mem_takeWhile_imp hbyte

theorem cstr_append_of_nulFree (hfree : NulFree bytes) (more : Bytes) :
    cstr (bytes ++ more) = bytes ++ cstr more :=
  List.takeWhile_append_of_pos fun byte hbyte => by simpa using hfree byte hbyte

/-- A C string ends at its first NUL. -/
theorem cstr_append_of_nul (hnul : ¬ NulFree bytes) (more : Bytes) :
    cstr (bytes ++ more) = cstr bytes := by
  induction bytes with
  | nil => exact absurd (fun byte hbyte => nomatch hbyte) hnul
  | cons byte rest ih =>
    rw [List.cons_append, cstr, cstr, List.takeWhile_cons, List.takeWhile_cons]
    split
    · next hbyte =>
        have hrest : ¬ NulFree rest := fun hfree =>
          hnul (List.forall_mem_cons.mpr ⟨of_decide_eq_true hbyte, hfree⟩)
        exact congrArg (byte :: ·) (ih hrest)
    · rfl

theorem length_cstr_le (bytes : Bytes) : (cstr bytes).length ≤ bytes.length :=
  (List.takeWhile_prefix _).length_le

theorem length_cstr_lt (hnul : ¬ NulFree bytes) :
    (cstr bytes).length < bytes.length := by
  refine Nat.lt_of_le_of_ne (length_cstr_le bytes) fun hlength => hnul ?_
  have hsame : cstr bytes = bytes := (List.takeWhile_prefix _).eq_of_length hlength
  rw [← hsame]
  exact nulFree_cstr bytes

/-- A string that C code can hold behind a `char *`. -/
abbrev CString := { bytes : Bytes // NulFree bytes }

theorem NulFree.of_sublist {part : Bytes} (hfree : NulFree bytes) (hpart : part.Sublist bytes) :
    NulFree part :=
  fun byte hbyte => hfree byte (hpart.subset hbyte)

/-- Compared over the whole length of the first string, the second begins with it. -/
theorem strncmpEq_length {left right : Bytes} (hfree : NulFree left) :
    strncmpEq left.length left right = true ↔ left <+: right := by
  induction left generalizing right with
  | nil => simp [strncmpEq]
  | cons first rest ih =>
    obtain ⟨hfirst, hrest⟩ := List.forall_mem_cons.mp hfree
    have hzero : ¬ first = 0#8 := hfirst
    rw [List.length_cons]
    unfold strncmpEq
    cases right with
    | nil => simp [hzero]
    | cons other others =>
      rw [List.cons_prefix_cons, ← ih hrest]
      by_cases hsame : first = other
      · simp [← hsame, hzero]
      · simp [hsame]

theorem strncmpEq_comm (count : Nat) (left right : Bytes) :
    strncmpEq count left right = strncmpEq count right left := by
  induction count generalizing left right with
  | zero => rfl
  | succ count ih =>
    unfold strncmpEq
    by_cases hsame : left.headD 0 = right.headD 0
    · rw [hsame, ih]
    · exact (if_pos hsame).trans (if_pos (Ne.symm hsame)).symm

/-- `strstr(haystack, needle)`: the place where the needle first occurs in the haystack. -/
def strstr (needle : Bytes) : Bytes → Option Nat
  | [] => if needle = [] then some 0 else none
  | byte :: rest =>
    if needle <+: byte :: rest then some 0 else (strstr needle rest).map (· + 1)

theorem isSome_strstr (needle haystack : Bytes) :
    (strstr needle haystack).isSome ↔ needle <:+: haystack := by
  induction haystack with
  | nil =>
    rw [List.infix_nil, strstr]
    split <;> simp [*]
  | cons byte rest ih =>
    rw [List.infix_cons_iff, ← ih, strstr]
    split <;> simp [*]

theorem prefix_drop_of_strstr {needle haystack : Bytes} {place : Nat}
    (hplace : strstr needle haystack = some place) : needle <+: haystack.drop place := by
  induction haystack generalizing place with
  | nil =>
    rw [strstr] at hplace
    obtain ⟨hempty, -⟩ := Option.ite_none_right_eq_some.mp hplace
    rw [hempty]
    exact List.nil_prefix
  | cons byte rest ih =>
    rw [strstr] at hplace
    split at hplace
    · next hhere =>
        cases hplace
        exact hhere
    · obtain ⟨later, hlater, rfl⟩ := Option.map_eq_some_iff.mp hplace
      exact ih hlater

theorem add_length_le_of_strstr {needle haystack : Bytes} {place : Nat} (hne : needle ≠ [])
    (hplace : strstr needle haystack = some place) :
    place + needle.length ≤ haystack.length := by
  have hlength := (prefix_drop_of_strstr hplace).length_le
  have hpos := List.length_pos_iff.mpr hne
  rw [List.length_drop] at hlength
  omega

/-- What follows the needle does not matter. -/
theorem strstr_append {needle haystack : Bytes} {place : Nat}
    (hplace : strstr needle haystack = some place) (more : Bytes) :
    strstr needle (haystack ++ more) = some place := by
  induction haystack generalizing place with
  | nil =>
    rw [strstr] at hplace
    obtain ⟨rfl, hzero⟩ := Option.ite_none_right_eq_some.mp hplace
    cases hzero
    cases more with
    | nil => rfl
    | cons byte more => exact if_pos List.nil_prefix
  | cons byte rest ih =>
    rw [strstr] at hplace
    rw [List.cons_append, strstr]
    split at hplace
    · next hhere =>
        cases hplace
        exact if_pos (hhere.trans (List.prefix_append (byte :: rest) more))
    · next hnot =>
        obtain ⟨later, hlater, rfl⟩ := Option.map_eq_some_iff.mp hplace
        have hlength := ((isSome_strstr needle rest).mp (by rw [hlater]; rfl)).length_le
        have hnot' : ¬ needle <+: byte :: (rest ++ more) := fun hhere =>
          hnot (List.prefix_of_prefix_length_le hhere
            (List.prefix_append (byte :: rest) more) (Nat.le_succ_of_le hlength))
        rw [if_neg hnot', ih hlater]
        rfl

/-! ### Values and hash tables -/

/-- A key of a `HashTable`. -/
inductive Key where
  | idx (n : Int)
  | str (s : Bytes)
deriving DecidableEq, Repr

/-- A `zval`. Doubles are represented by their bit patterns. An object is represented
    by its property table, a reference by the value it points to. -/
inductive Zval where
  | undef
  | null
  | bool (b : Bool)
  | long (n : BitVec 64)
  | double (bits : BitVec 64)
  | string (s : Bytes)
  | array (entries : List (Key × Zval))
  | object (props : List (Key × Zval))
  | resource (handle : BitVec 64)
  | reference (target : Zval)

abbrev HashTable := List (Key × Zval)

/-- `zend_get_type_by_const(Z_TYPE_P(value))`. -/
def Zval.typeName : Zval → Bytes
  | .null => ascii "null"
  | .bool _ => ascii "bool"
  | .long _ => ascii "int"
  | .double _ => ascii "float"
  | .string _ => ascii "string"
  | .array _ => ascii "array"
  | .object _ => ascii "object"
  | .resource _ => ascii "resource"
  | .undef => ascii "unknown"
  | .reference _ => ascii "unknown"

/-- `IS_NULL` or `IS_UNDEF`. -/
def Zval.isNullish : Zval → Bool
  | .undef => true
  | .null => true
  | _ => false

def Zval.isUndef : Zval → Bool
  | .undef => true
  | _ => false

/-- `Z_LVAL_P`, only read after the type of the value has been checked. -/
def Zval.lval : Zval → BitVec 64
  | .long n => n
  | _ => 0

def isDigit (byte : Byte) : Bool := 0x30#8 ≤ byte && byte ≤ 0x39#8

/-- The number a run of ASCII digits denotes. -/
def digitsValue (digits : Bytes) : Nat :=
  digits.foldl (fun value digit => 10 * value + (digit.toNat - 0x30)) 0

/-- `ZEND_HANDLE_NUMERIC_STR`: the integer that a string key stands for, if it is the
    canonical decimal form of one (no leading zeros, no `-0`, within a `zend_long`). -/
def handleNumericStr (key : Bytes) : Option Int :=
  let negative := key.head? = some 0x2d#8
  let digits := if negative then key.tail else key
  if digits.isEmpty || !digits.all isDigit then none
  else if digits.head? = some 0x30#8 && 1 < key.length then none
  else if 19 < digits.length then none
  else if negative then
    if digitsValue digits ≤ 2 ^ 63 then some (-(digitsValue digits : Int)) else none
  else if digitsValue digits < 2 ^ 63 then some (digitsValue digits : Int) else none

/-- The key under which `zend_symtable_str_*` files a string. -/
def symtableKey (key : Bytes) : Key :=
  match handleNumericStr key with
  | some n => .idx n
  | none => .str key

/-- `nNextFreeElement`. -/
def nextFreeElement (table : HashTable) : Int :=
  table.foldl (fun next entry =>
    match entry.1 with
    | .idx n => max next (n + 1)
    | .str _ => next) 0

/-- `zend_hash_next_index_insert`. -/
def nextIndexInsert (table : HashTable) (value : Zval) : HashTable :=
  table ++ [(.idx (nextFreeElement table), value)]

/-- A PHP list: the values under the keys `0, 1, …` in this order. -/
def listFrom (first : Nat) : List Zval → HashTable
  | [] => []
  | value :: rest => (.idx first, value) :: listFrom (first + 1) rest

def listTable (values : List Zval) : HashTable := listFrom 0 values

/-- The key is not a string that PHP would have turned into an integer. -/
def Key.isCanonical : Key → Bool
  | .idx _ => true
  | .str s => (handleNumericStr s).isNone

/-- A PHP array handed over by user code: distinct keys, all canonical. -/
structure PhpArray where
  entries : HashTable
  nodup : (OrderedMap.keys entries).Nodup
  canonical : ∀ key ∈ OrderedMap.keys entries, key.isCanonical

def Key.string? : Key → Option Bytes
  | .idx _ => none
  | .str s => some s

def PhpArray.stringKeys (array : PhpArray) : List Bytes :=
  (OrderedMap.keys array.entries).filterMap Key.string?

theorem listFrom_append (first : Nat) (left right : List Zval) :
    listFrom first (left ++ right) = listFrom first left ++
      listFrom (first + left.length) right := by
  induction left generalizing first with
  | nil => rfl
  | cons value rest ih =>
    simp only [List.cons_append, listFrom, ih, List.length_cons]
    congr 3
    omega

theorem listFrom_values (first : Nat) (values : List Zval) :
    (listFrom first values).map Prod.snd = values := by
  induction values generalizing first with
  | nil => rfl
  | cons value rest ih => simp [listFrom, ih]

@[simp] theorem listTable_values (values : List Zval) :
    (listTable values).map Prod.snd = values := listFrom_values 0 values

theorem nextFreeElement_listTable (values : List Zval) :
    nextFreeElement (listTable values) = values.length := by
  have haux : ∀ (rest : List Zval) (first : Nat),
      (listFrom first rest).foldl (fun next entry =>
        match entry.1 with
        | .idx n => max next (n + 1)
        | .str _ => next) (first : Int) = ((first + rest.length : Nat) : Int) := by
    intro rest
    induction rest with
    | nil => intro first; simp [listFrom]
    | cons value rest ih =>
      intro first
      have hmax : max (first : Int) ((first : Int) + 1) = ((first + 1 : Nat) : Int) := by
        push_cast
        omega
      simp only [listFrom, List.foldl_cons, hmax, ih, List.length_cons]
      congr 1
      omega
  simpa [nextFreeElement, listTable] using haux values 0

/-- Appending to a PHP list gives a PHP list. -/
@[simp] theorem nextIndexInsert_listTable (values : List Zval) (value : Zval) :
    nextIndexInsert (listTable values) value = listTable (values ++ [value]) := by
  rw [nextIndexInsert, nextFreeElement_listTable, listTable, listTable, listFrom_append]
  simp [listFrom]

/-! ### Conversions -/

/-- Conversions of the host that the repository calls but does not contain. -/
structure Host where
  stringToLong : Bytes → BitVec 64
  doubleToLong : BitVec 64 → BitVec 64
  objectToLong : HashTable → BitVec 64
  stringToDouble : Bytes → BitVec 64
  longToDouble : BitVec 64 → BitVec 64
  objectToDouble : HashTable → BitVec 64
  doubleToFloat : BitVec 64 → BitVec 32
  floatToDouble : BitVec 32 → BitVec 64
deriving Inhabited

def zvalGetLong (host : Host) : Zval → BitVec 64
  | .undef => 0
  | .null => 0
  | .bool b => if b then 1 else 0
  | .long n => n
  | .double bits => host.doubleToLong bits
  | .string s => host.stringToLong s
  | .array entries => if entries.isEmpty then 0 else 1
  | .object props => host.objectToLong props
  | .resource handle => handle
  | .reference target => zvalGetLong host target

def zvalGetDouble (host : Host) : Zval → BitVec 64
  | .undef => host.longToDouble 0
  | .null => host.longToDouble 0
  | .bool b => host.longToDouble (if b then 1 else 0)
  | .long n => host.longToDouble n
  | .double bits => bits
  | .string s => host.stringToDouble s
  | .array entries => host.longToDouble (if entries.isEmpty then 0 else 1)
  | .object props => host.objectToDouble props
  | .resource handle => host.longToDouble handle
  | .reference target => zvalGetDouble host target

def zendIsTrue : Zval → Bool
  | .undef => false
  | .null => false
  | .bool b => b
  | .long n => n ≠ 0
  | .double bits => bits <<< 1 ≠ 0
  | .string s => !(s.isEmpty || s = ascii "0")
  | .array entries => !entries.isEmpty
  | .object _ => true
  | .resource handle => handle ≠ 0
  | .reference target => zendIsTrue target

end QuicproAsync.Php

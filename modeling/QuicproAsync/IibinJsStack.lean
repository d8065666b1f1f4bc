import QuicproAsync.IibinJs

/-!
# The stack of the JavaScript decoder

The tables of `iibin.js` may refer to each other in circles, so the schemas do not bound how
deep `decode` calls itself. The input does: a nested message is behind a key and a length,
and so at least two bytes shorter than what it stands in, or empty. The decoder is
therefore finished, with a result or an error of its own, on a stack of one call for every
two bytes, and what it does there does not change on a larger stack.
-/

namespace QuicproAsync.Iibin.Js

open Php Fallible ScanLoop

/-! ### Two runs on stacks of different size -/

theorem Own.settled {post : α → Prop} {result : Except Error α} (hown : Own post result) :
    Settled .depth result result := .rfl fun heq => (hown.error heq).2 rfl

/-- A slice is shorter than the bytes that it was read from, or empty. -/
theorem readSlice_inner {overflow : Error} {bytes content rest : Bytes}
    (hread : readSlice overflow bytes = .ok (content, rest)) :
    content.length < bytes.length ∨ content = [] := by
  obtain ⟨⟨len, after⟩, hlen, hread⟩ := bind_eq_ok.mp hread
  obtain ⟨hle, hlt⟩ := (readVarint_own bytes).ok hlen
  dsimp only at hle hlt hread
  split at hread
  · cases hread
  · cases hread
    rcases bytes with _ | ⟨byte, bytes⟩
    · right
      rw [List.eq_nil_of_length_eq_zero (Nat.le_zero.mp hle), List.take_nil]
    · left
      have hless := hlt (List.cons_ne_nil _ _)
      rw [List.length_take]
      exact Nat.lt_of_le_of_lt (Nat.min_le_right _ _) hless

section

variable (env : Env) {decodeNested decodeNested' : Decoder} {n : Nat}
  (hnested : ∀ content schema, content.length < n ∨ content = [] →
    Settled .depth (decodeNested content schema) (decodeNested' content schema))

include hnested

theorem readScalar_settled (field : FieldDef) {bytes : Bytes} (hbytes : bytes.length ≤ n) :
    Settled .depth (readScalar env decodeNested field bytes)
      (readScalar env decodeNested' field bytes) := by
  unfold readScalar
  cases field.type with
  | unknown => exact .rfl nofun
  | double | fixed64 | sfixed64 =>
    exact (readFixed64_own bytes).settled.bind fun _ _ => .rfl nofun
  | float | fixed32 | sfixed32 =>
    exact (readFixed32_own bytes).settled.bind fun _ _ => .rfl nofun
  | int64 | uint64 | int32 | uint32 | sint32 | sint64 | bool | enum =>
    exact (readVarint_own bytes).settled.bind fun _ _ => .rfl nofun
  | string | bytes =>
    exact (readSlice_own (by simp) bytes).settled.bind fun _ _ => .rfl nofun
  | message =>
    refine (readSlice_own (by simp) bytes).settled.bind fun out hout => ?_
    refine (nestedSchema_own env field).settled.bind fun schema _ => ?_
    have hinner : out.1.length < n ∨ out.1 = [] :=
      (readSlice_inner hout).imp_left fun hlt => hlt.trans_le hbytes
    exact (hnested out.1 schema hinner).bind fun _ _ => .rfl nofun

variable (hproper : ∀ bytes schema, Proper (fun _ => True) (decodeNested bytes schema))

include hproper

theorem packedLoop_settled (field : FieldDef) (after fuel : Nat) {bytes : Bytes}
    (hbytes : bytes.length ≤ n) (obj : Props) :
    Settled .depth (packedLoop env decodeNested field after fuel bytes obj)
      (packedLoop env decodeNested' field after fuel bytes obj) := by
  induction fuel generalizing bytes obj with
  | zero =>
    unfold packedLoop
    split <;> exact .rfl (by simp)
  | succ fuel ih =>
    unfold packedLoop
    split
    · refine (readScalar_settled env hnested field hbytes).bind fun out hout => ?_
      refine (pushProperty_own env obj field.name out.1).settled.bind fun next _ => ?_
      have hle := ((readScalar_proper env hproper field bytes).ok hout).1
      exact ih (hle.trans hbytes) next
    · exact .rfl (by simp)

theorem decodeField_settled (schema : Schema) {bytes : Bytes} (hne : bytes ≠ [])
    (hbytes : bytes.length ≤ n + 1) (obj : Props) :
    Settled .depth (decodeField env decodeNested schema bytes obj)
      (decodeField env decodeNested' schema bytes obj) := by
  refine (readVarint_own bytes).settled.bind fun key hkey => ?_
  have hless := ((readVarint_own bytes).ok hkey).2 hne
  have hrest : key.2.length ≤ n := by omega
  dsimp only
  split
  · exact (skipField_own _ _).settled.bind fun _ _ => .rfl nofun
  · rename_i field _
    split
    · refine (readVarint_own key.2).settled.bind fun len hlen => ?_
      have hle := ((readVarint_own key.2).ok hlen).1
      dsimp only
      split
      · exact .rfl nofun
      · exact packedLoop_settled env hnested hproper _ _ _ (hle.trans hrest) obj
    · refine (readScalar_settled env hnested field hrest).bind fun out _ => ?_
      exact (storeValue_own env field obj out.1).settled.bind fun _ _ => .rfl nofun

end

theorem decode_settled (env : Env) {depth depth' : Nat} {bytes : Bytes}
    (hdepth : (bytes.length + 1) / 2 < depth) (hdepth' : (bytes.length + 1) / 2 < depth')
    (schema : Schema) :
    Settled .depth (decode env depth bytes schema) (decode env depth' bytes schema) := by
  induction depth generalizing depth' bytes schema with
  | zero => exact absurd hdepth (Nat.not_lt_zero _)
  | succ depth ih =>
    obtain ⟨depth', rfl⟩ := Nat.exists_eq_add_of_le' (Nat.zero_lt_of_lt hdepth')
    have hproper := decode_proper env depth
    have hloop : Settled .depth
        (drainAll .exhausted (decodeField env (decode env depth) schema) bytes [])
        (drainAll .exhausted (decodeField env (decode env depth') schema) bytes []) := by
      refine settled_drainAll (by nofun) (fun part obj hne hpart => ?_)
        (fun part obj rest next hne hstep => ?_) []
      · have hpos : 0 < part.length := List.length_pos_of_ne_nil hne
        refine decodeField_settled env (n := bytes.length - 1) (fun content nested hinner => ?_)
          hproper schema hne (by omega) obj
        -- the content lost its key and its length, or is empty behind the key
        have hlength : content.length + 2 ≤ bytes.length ∨ content.length = 0 := by
          rcases hinner with hlt | rfl
          · exact .inl (by omega)
          · exact .inr rfl
        exact ih (by omega) (by omega) nested
      · exact ((decodeField_proper env hproper schema part obj).ok hstep).1
    refine hloop.bind fun obj _ => ?_
    exact Own.settled (Ends.foldlM_mem _ (fun entry _ obj _ => populateField_own env _ obj entry)
      trivial)

/-- **The input bounds the stack.** Whatever the tables refer to, `decode` needs one call for
    every two bytes of its input and one more: with that many it returns or throws an
    error of its own, and with any larger number it does the same. -/
theorem js_stack_bounded_by_input (env : Env) (bytes : Bytes) (schema : Schema) (depth : Nat)
    (hdepth : (bytes.length + 1) / 2 < depth) :
    decode env depth bytes schema ≠ .error .depth ∧
      decode env depth bytes schema ≠ .error .exhausted ∧
      ∀ depth', (bytes.length + 1) / 2 < depth' →
        decode env depth' bytes schema = decode env depth bytes schema := by
  refine ⟨(decode_settled env hdepth hdepth schema).2, ?_, fun depth' hdepth' => ?_⟩
  · exact ends_ne_iff.mp (decode_proper env depth bytes schema)
  · exact (decode_settled env hdepth' hdepth schema).1

/-- A table of messages that hold a message of their own kind. -/
def chainTable : Schema :=
  ⟨ascii "Chain", [(1, ⟨ascii "next", .message, ⟨true, false, false, false⟩, some (ascii "Chain"),
    .undefined⟩)]⟩

def chainEnv : Env := ⟨[(ascii "Chain", chainTable)], id, default⟩

theorem chain_read_on_every_stack :
    decode chainEnv 2 [0x0a#8, 2#8, 0x0a#8, 0#8] chainTable = .error .depth ∧
      ∀ depth, 2 < depth → decode chainEnv depth [0x0a#8, 2#8, 0x0a#8, 0#8] chainTable =
        .ok [(ascii "next", .object [(ascii "next", .object [])])] :=
  ⟨rfl, (js_stack_bounded_by_input chainEnv [0x0a#8, 2#8, 0x0a#8, 0#8] chainTable 3
    (by decide)).2.2⟩

end QuicproAsync.Iibin.Js

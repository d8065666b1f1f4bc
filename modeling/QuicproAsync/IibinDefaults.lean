import QuicproAsync.IibinDelivery
import QuicproAsync.IibinRegistry

/-!
# Defaults and required fields

`populate_default_values_and_check_required` goes through the fields in the order of
their tags. A field whose name is bound is passed over; otherwise a required field ends
the decoding and the default of an optional one is put under its name. Names cut at a
NUL may coincide, so a default can also stand in for a required field behind it.
-/

namespace QuicproAsync.Iibin

open Php Fallible OrderedMap

/-- The field is optional and has a default. -/
def FieldDef.hasFallback (field : FieldDef) : Bool :=
  !(field.flags.required || field.defaultValueZval.isUndef)

/-- What the field puts under a key that is not bound. -/
def FieldDef.fallback (key : Key) (field : FieldDef) : Option Zval :=
  if key = .str field.nameInPhp ∧ field.hasFallback then some field.defaultValueZval else none

/-- What the first of the fields that has something for the key puts there. -/
def fallback (fields : List FieldDef) (key : Key) : Option Zval :=
  fields.findSome? (FieldDef.fallback key)

/-- Every required field is bound, or comes behind the default of a field of its name. -/
def Supplied (entries : HashTable) (fields : List FieldDef) : Prop :=
  ∀ before field after, fields = before ++ field :: after → field.flags.required = true →
    ((entries.lookup (.str field.nameInPhp)).or (fallback before (.str field.nameInPhp))).isSome

theorem FieldDef.fallback_self (field : FieldDef) (hfallback : field.hasFallback = true) :
    field.fallback (.str field.nameInPhp) = some field.defaultValueZval :=
  if_pos ⟨rfl, hfallback⟩

theorem FieldDef.fallback_eq_none {field : FieldDef} (hnone : field.hasFallback = false)
    (key : Key) : field.fallback key = none := by
  rw [FieldDef.fallback, if_neg (by simp [hnone])]

/-! ### One field -/

/-- Everything that can happen at one field. -/
theorem populateField_cases (schemaName : Bytes) (asObject : Bool) (entries : HashTable)
    (field : FieldDef) :
    (((entries.lookup (.str field.nameInPhp)).isSome ∨ field.flags.required = false) ∧
      ∃ entries', populateField schemaName (container asObject entries) field =
          .ok (container asObject entries') ∧
        (∀ key, entries'.lookup key = (entries.lookup key).or (field.fallback key)) ∧
        ((keys entries).Nodup → (keys entries').Nodup)) ∨
    (entries.lookup (.str field.nameInPhp) = none ∧ field.flags.required = true ∧
      populateField schemaName (container asObject entries) field =
        .error (.exception (.requiredNotFound field.nameInPhp field.tag schemaName))) := by
  have hpresent : fieldIsPresent field (container asObject entries) =
      (entries.lookup (.str field.nameInPhp)).isSome := by
    cases asObject <;> rfl
  have hput : putMember field.nameInPhp field.defaultValueZval (container asObject entries) =
      container asObject (assign (.str field.nameInPhp) field.defaultValueZval
        entries) := by
    cases asObject <;> rfl
  unfold populateField
  rw [hpresent, hput]
  cases hlookup : entries.lookup (.str field.nameInPhp) with
  | none =>
    simp only [Option.isSome_none, Bool.false_eq_true, if_false, false_or]
    cases hrequired : field.flags.required with
    | true => exact .inr ⟨trivial, rfl, rfl⟩
    | false =>
      refine .inl ⟨rfl, ?_⟩
      cases hundef : field.defaultValueZval.isUndef with
      | true =>
        refine ⟨entries, rfl, fun key => ?_, id⟩
        rw [FieldDef.fallback_eq_none (by simp [FieldDef.hasFallback, hundef]), Option.or_none]
      | false =>
        refine ⟨_, rfl, fun key => ?_, nodup_keys_assign⟩
        rw [lookup_assign]
        split
        · rename_i hkey
          subst hkey
          rw [hlookup, Option.none_or,
            FieldDef.fallback_self _ (by simp [FieldDef.hasFallback, hrequired, hundef])]
        · rename_i hkey
          rw [FieldDef.fallback, if_neg (fun hboth => hkey hboth.1), Option.or_none]
  | some value =>
    refine .inl ⟨.inl rfl, entries, rfl, fun key => ?_, id⟩
    by_cases hkey : key = .str field.nameInPhp
    · subst hkey
      rw [hlookup, Option.some_or]
    · rw [FieldDef.fallback, if_neg (fun hboth => hkey hboth.1), Option.or_none]

/-! ### All fields -/

theorem fallback_cons (field : FieldDef) (rest : List FieldDef) (key : Key) :
    fallback (field :: rest) key = (field.fallback key).or (fallback rest key) := by
  rw [fallback, List.findSome?_cons, fallback]
  rcases field.fallback key with _ | value
  · rfl
  · rfl

theorem supplied_cons {entries entries' : HashTable} {field : FieldDef} {rest : List FieldDef}
    (hnext : ∀ key, entries'.lookup key = (entries.lookup key).or (field.fallback key)) :
    Supplied entries (field :: rest) ↔
      (field.flags.required = true → (entries.lookup (.str field.nameInPhp)).isSome) ∧
        Supplied entries' rest := by
  constructor
  · intro hsupplied
    constructor
    · intro hrequired
      simpa [fallback] using hsupplied [] field rest rfl hrequired
    · intro before other after hsplit hrequired
      have hother := hsupplied (field :: before) other after (by rw [hsplit]; rfl) hrequired
      rwa [fallback_cons, ← Option.or_assoc, ← hnext] at hother
  · rintro ⟨hfirst, hrest⟩ before other after hsplit hrequired
    cases before with
    | nil =>
      cases hsplit
      simpa [fallback] using hfirst hrequired
    | cons head before =>
      cases hsplit
      rw [fallback_cons, ← Option.or_assoc, ← hnext]
      exact hrest before other after rfl hrequired

/-- **Filling in.** The pass fails exactly if a required field is not supplied; if it
    succeeds, what was bound stays bound and the defaults come in where nothing was. -/
theorem populate_fields (schemaName : Bytes) (asObject : Bool) (fields : List FieldDef)
    (entries : HashTable) :
    (Supplied entries fields ∧ ∃ entries',
      fields.foldlM (populateField schemaName) (container asObject entries) =
        .ok (container asObject entries') ∧
      (∀ key, entries'.lookup key = (entries.lookup key).or (fallback fields key)) ∧
      ((keys entries).Nodup → (keys entries').Nodup)) ∨
    (¬ Supplied entries fields ∧ ∃ error,
      fields.foldlM (populateField schemaName) (container asObject entries) =
        .error (.exception error)) := by
  induction fields generalizing entries with
  | nil =>
    refine .inl ⟨?_, entries, rfl, fun key => by simp [fallback], id⟩
    intro before field after hsplit
    simp at hsplit
  | cons field rest ih =>
    rw [List.foldlM_cons]
    rcases populateField_cases schemaName asObject entries field with
      ⟨hfirst, entries', hstep, hnext, hnodup⟩ | ⟨hnone, hrequired, hstep⟩
    · rw [hstep, supplied_cons hnext]
      have hgiven : field.flags.required = true →
          (entries.lookup (.str field.nameInPhp)).isSome = true := by
        intro hrequired
        rcases hfirst with hsome | hoptional
        · exact hsome
        · rw [hrequired] at hoptional
          cases hoptional
      rcases ih entries' with ⟨hsupplied, final, hfold, hfinal, hnodup'⟩ | ⟨hnot, error, hfold⟩
      · refine .inl ⟨⟨hgiven, hsupplied⟩, final, hfold, fun key => ?_, hnodup' ∘ hnodup⟩
        rw [hfinal, hnext, fallback_cons, Option.or_assoc]
      · exact .inr ⟨fun hboth => hnot hboth.2, error, hfold⟩
    · rw [hstep]
      refine .inr ⟨fun hsupplied => ?_, _, rfl⟩
      have hsome := hsupplied [] field rest rfl hrequired
      simp [hnone, fallback] at hsome

/-- In a schema the fields before a field are those of smaller tag. -/
theorem supplied_iff {fields : List FieldDef}
    (hsorted : fields.Pairwise fun left right => left.tag.toNat < right.tag.toNat)
    (entries : HashTable) :
    Supplied entries fields ↔ ∀ field ∈ fields, field.flags.required = true →
      (entries.lookup (.str field.nameInPhp)).isSome ∨
        ∃ earlier ∈ fields, earlier.tag.toNat < field.tag.toNat ∧
          earlier.nameInPhp = field.nameInPhp ∧ earlier.hasFallback := by
  have hfallback : ∀ (before : List FieldDef) (name : Bytes),
      (fallback before (.str name)).isSome ↔
        ∃ earlier ∈ before, earlier.nameInPhp = name ∧ earlier.hasFallback := by
    intro before name
    simp only [fallback, List.findSome?_isSome_iff, FieldDef.fallback, Key.str.injEq]
    refine exists_congr fun earlier => and_congr_right fun _ => ?_
    by_cases hboth : name = earlier.nameInPhp ∧ earlier.hasFallback = true
    · rw [if_pos hboth]
      exact ⟨fun _ => ⟨hboth.1.symm, hboth.2⟩, fun _ => rfl⟩
    · rw [if_neg hboth]
      exact ⟨nofun, fun hother => absurd ⟨hother.1.symm, hother.2⟩ hboth⟩
  have hbefore : ∀ before field after, fields = before ++ field :: after →
      ∀ earlier, earlier ∈ before ↔ earlier ∈ fields ∧ earlier.tag.toNat < field.tag.toNat := by
    rintro before field after rfl earlier
    obtain ⟨-, hbehind, hahead⟩ := List.pairwise_append.mp hsorted
    have hafter := (List.pairwise_cons.mp hbehind).1
    constructor
    · intro hearlier
      exact ⟨List.mem_append_left _ hearlier, hahead earlier hearlier field List.mem_cons_self⟩
    · rintro ⟨hearlier, hlt⟩
      rcases List.mem_append.mp hearlier with hleft | hright
      · exact hleft
      · rcases List.mem_cons.mp hright with rfl | hlater
        · exact absurd hlt (Nat.lt_irrefl _)
        · exact absurd (hafter earlier hlater) (Nat.lt_asymm hlt)
  constructor
  · intro hsupplied field hfield hrequired
    obtain ⟨before, after, hsplit⟩ := List.append_of_mem hfield
    have hsome := hsupplied before field after hsplit hrequired
    rw [Option.isSome_or, Bool.or_eq_true, hfallback] at hsome
    refine hsome.imp_right ?_
    rintro ⟨earlier, hearlier, hname, hhas⟩
    obtain ⟨hmem, hlt⟩ := (hbefore before field after hsplit earlier).mp hearlier
    exact ⟨earlier, hmem, hlt, hname, hhas⟩
  · intro hall before field after hsplit hrequired
    rw [Option.isSome_or, Bool.or_eq_true, hfallback]
    refine (hall field (by simp [hsplit]) hrequired).imp_right ?_
    rintro ⟨earlier, hmem, hlt, hname, hhas⟩
    exact ⟨earlier, (hbefore before field after hsplit earlier).mpr ⟨hmem, hlt⟩, hname, hhas⟩

end QuicproAsync.Iibin

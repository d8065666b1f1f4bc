import QuicproAsync.IibinJsReading

/-!
# What the JavaScript decoder builds

The object after the items of a message have been delivered, and after the defaults have
been put in. A name of `Object.prototype` is the special case: a `push` on it fails, and
neither a default nor the check for a required field sees that nothing is there.
-/

namespace QuicproAsync.Iibin.Js

open Php Fallible OrderedMap

/-! ### Storing in the object -/

/-- The items of the array that is there. -/
def elements : Option Value → List Value
  | some (.array items) => items
  | _ => []

def IsArray (member : Option Value) : Prop :=
  ∀ value, member = some value → ∃ items, value = .array items

theorem protoName_inherited : protoName ∈ inheritedNames := by decide

theorem ne_protoName {name : Bytes} (hname : name ∉ inheritedNames) : name ≠ protoName :=
  fun heq => hname (heq ▸ protoName_inherited)

/-- The object inherits from `Object.prototype`. -/
abbrev Ordinary (obj : Props) : Prop := obj.lookup protoName = none

theorem Ordinary.assign {obj : Props} (hordinary : Ordinary obj) {name : Bytes}
    (hname : name ≠ protoName) (value : Value) : Ordinary (assign name value obj) := by
  rw [Ordinary, lookup_assign, if_neg hname.symm]
  exact hordinary

section

variable (env : Env) {obj : Props} (hordinary : Ordinary obj) {name : Bytes}

include hordinary

theorem getProperty_of_some {value : Value} (hown : obj.lookup name = some value) :
    getProperty env obj name = value := by
  simp only [getProperty, hordinary, hown]

theorem getProperty_of_none (hnone : obj.lookup name = none) :
    getProperty env obj name = if name ∈ inheritedNames then .inherited name else .undefined := by
  simp only [getProperty, hordinary, hnone]

theorem setProperty_eq (hname : name ≠ protoName) (value : Value) :
    setProperty env obj name value = .ok (assign name value obj) := by
  simp only [setProperty, hordinary]
  exact if_neg fun hboth => hname hboth.1

theorem callPush_array {items : List Value} (hown : obj.lookup name = some (.array items))
    (value : Value) :
    callPush env obj name value =
      .ok (assign name (.array (items ++ [value])) obj) := by
  simp only [callPush, getProperty_of_some env hordinary hown, hordinary]

/-- Where nothing is there, or something that counts as false, an array is made. -/
theorem pushProperty_made (hname : name ≠ protoName)
    (hfalse : (getProperty env obj name).isTruthy = false) (value : Value) :
    pushProperty env obj name value = .ok (assign name (.array [value]) obj) := by
  have hready : ensureArray env obj name = .ok (assign name (.array []) obj) := by
    rw [ensureArray, if_neg (by simp [hfalse]), setProperty_eq env hordinary hname]
  rw [pushProperty, hready]
  refine (callPush_array env (hordinary.assign hname _)
    (lookup_assign_self ..) value).trans ?_
  rw [assign_assign, List.nil_append]

theorem pushProperty_eq (hname : name ∉ inheritedNames) (harray : IsArray (obj.lookup name))
    (value : Value) :
    pushProperty env obj name value =
      .ok (assign name (.array (elements (obj.lookup name) ++ [value])) obj) := by
  rcases hold : obj.lookup name with _ | old
  · have hget := getProperty_of_none env hordinary hold
    rw [if_neg hname] at hget
    exact pushProperty_made env hordinary (ne_protoName hname) (by rw [hget]; rfl) value
  · obtain ⟨items, rfl⟩ := harray old hold
    have hready : ensureArray env obj name = .ok obj := by
      rw [ensureArray, getProperty_of_some env hordinary hold]
      rfl
    rw [pushProperty, hready]
    exact callPush_array env hordinary hold value

/-- On a name of `Object.prototype` there is something without a `push`. -/
theorem pushProperty_inherited (hname : name ∈ inheritedNames) (hnone : obj.lookup name = none)
    (value : Value) : pushProperty env obj name value = .error .typeError := by
  have hget : getProperty env obj name = .inherited name := by
    rw [getProperty_of_none env hordinary hnone, if_pos hname]
  have hready : ensureArray env obj name = .ok obj := by
    rw [ensureArray, hget]
    rfl
  rw [pushProperty, hready]
  show callPush env obj name value = _
  simp only [callPush, hget, hordinary]

theorem foldlM_pushProperty (hname : name ∉ inheritedNames) {items : List Value}
    (hitems : items ≠ []) (harray : IsArray (obj.lookup name)) :
    items.foldlM (fun obj value => pushProperty env obj name value) obj =
      .ok (assign name (.array (elements (obj.lookup name) ++ items)) obj) := by
  induction items generalizing obj with
  | nil => contradiction
  | cons value rest ih =>
    rw [List.foldlM_cons, pushProperty_eq env hordinary hname harray]
    by_cases hrest : rest = []
    · rw [hrest]
      rfl
    · have hnext : IsArray ((assign name
          (.array (elements (obj.lookup name) ++ [value])) obj).lookup name) := by
        rw [lookup_assign_self]
        rintro _ ⟨⟩
        exact ⟨_, rfl⟩
      have htail := ih (hordinary.assign (ne_protoName hname) _) hrest hnext
      rw [lookup_assign_self, assign_assign] at htail
      simpa [bind, Except.bind, elements] using htail

end

theorem isObject_seen (host : Host) (type : FieldType) (item : Zval) :
    (seen host type item).isObject = false := by
  cases type <;> rfl

section

variable {env : Env} {host : Host} {registry : Registry} {data : Zval}

/-- What the values that arrive for a field make of the property of its name. -/
def change (host : Host) (registry : Registry) (data : Zval) (field : Iibin.FieldDef)
    (old : Option Value) : Option Value :=
  if seenItems host registry data field = [] then old
  else if field.flags.repeated then
    some (.array (elements old ++ seenItems host registry data field))
  else (seenItems host registry data field).getLast?

theorem sentItems_atMostOne {field : Iibin.FieldDef} (hsingular : field.flags.repeated = false)
    (value : Option Zval) :
    sentItems registry field value = [] ∨ ∃ item, sentItems registry field value = [item] := by
  unfold sentItems
  split
  · exact .inl rfl
  · split
    · exact .inl rfl
    · rw [if_neg (by simp [hsingular])]
      exact .inr ⟨_, rfl⟩

theorem deliverAll_ok {field : Iibin.FieldDef} {obj : Props} (hordinary : Ordinary obj)
    (hlist : field.flags.repeated = true → seenItems host registry data field ≠ [] →
      field.nameInPhp ∉ inheritedNames ∧ IsArray (obj.lookup field.nameInPhp)) :
    ∃ obj', deliverAll env host registry data obj field = .ok obj' ∧
      ∀ name, obj'.lookup name =
        if name = field.nameInPhp ∧ name ≠ protoName then
          change host registry data field (obj.lookup name)
        else obj.lookup name := by
  by_cases hitems : seenItems host registry data field = []
  · refine ⟨obj, by simp [deliverAll, hitems, pure, Except.pure], fun name => ?_⟩
    simp [change, hitems]
  · cases hrepeated : field.flags.repeated with
    | true =>
      obtain ⟨hname, harray⟩ := hlist hrepeated hitems
      have hproto := ne_protoName hname
      have hdeliver :
          deliver env field = fun obj value => pushProperty env obj field.nameInPhp value := by
        funext obj value
        rw [deliver, if_pos hrepeated]
      have hpushed := foldlM_pushProperty env hordinary hname hitems harray
      refine ⟨_, by rw [deliverAll, hdeliver, hpushed], fun name => ?_⟩
      rw [lookup_assign]
      by_cases heq : name = field.nameInPhp
      · simp [heq, hproto, change, hitems, hrepeated]
      · simp [heq]
    | false =>
      obtain ⟨item, hitem⟩ : ∃ item, seenItems host registry data field =
          [seen host field.type item] := by
        rcases sentItems_atMostOne hrepeated (readMember data field.nameInPhp) with
          hnone | ⟨item, hone⟩
        · exact absurd (by rw [seenItems, hnone]; rfl) hitems
        · exact ⟨item, by rw [seenItems, hone]; rfl⟩
      have hrun : deliverAll env host registry data obj field =
          setProperty env obj field.nameInPhp (seen host field.type item) := by
        simp [deliverAll, hitem, deliver, hrepeated]
      by_cases hproto : field.nameInPhp = protoName
      · refine ⟨obj, ?_, fun name => ?_⟩
        · rw [hrun]
          simp only [setProperty, hordinary]
          exact if_pos ⟨hproto, isObject_seen host field.type item⟩
        · rw [if_neg (fun hname => hname.2 (hname.1.trans hproto))]
      · refine ⟨_, hrun.trans (setProperty_eq env hordinary hproto _), fun name => ?_⟩
        rw [lookup_assign]
        by_cases heq : name = field.nameInPhp
        · simp [heq, hproto, change, hitem, hrepeated]
        · simp [heq]

end

/-! ### The whole message -/

/-- Fields of one name that both arrive are lists together or not at all. -/
def Uniform (host : Host) (registry : Registry) (data : Zval) (fields : List Iibin.FieldDef) :
    Prop :=
  ∀ first ∈ fields, ∀ second ∈ fields, first.nameInPhp = second.nameInPhp →
    seenItems host registry data first ≠ [] → seenItems host registry data second ≠ [] →
      first.flags.repeated = second.flags.repeated

/-- No list arrives under a name of `Object.prototype`. -/
def ListsFree (host : Host) (registry : Registry) (data : Zval) (fields : List Iibin.FieldDef) :
    Prop :=
  ∀ field ∈ fields, field.flags.repeated = true → seenItems host registry data field ≠ [] →
    field.nameInPhp ∉ inheritedNames

section

variable {env : Env} {host : Host} {registry : Registry} {data : Zval}
  {fields : List Iibin.FieldDef}

theorem foldlM_deliverAll (huniform : Uniform host registry data fields)
    (hfree : ListsFree host registry data fields) {obj : Props} (hordinary : Ordinary obj)
    (harray : ∀ field ∈ fields, field.flags.repeated = true →
      seenItems host registry data field ≠ [] → IsArray (obj.lookup field.nameInPhp)) :
    ∃ obj', fields.foldlM (deliverAll env host registry data) obj = .ok obj' ∧
      ∀ name, obj'.lookup name =
        if name = protoName then obj.lookup name
        else (fields.filter fun field => field.nameInPhp = name).foldl
          (fun old field => change host registry data field old) (obj.lookup name) := by
  induction fields generalizing obj with
  | nil => exact ⟨obj, rfl, fun name => by simp⟩
  | cons field rest ih =>
    obtain ⟨next, hnext, hlookup⟩ := deliverAll_ok hordinary fun hrepeated hitems =>
      ⟨hfree field List.mem_cons_self hrepeated hitems,
        harray field List.mem_cons_self hrepeated hitems⟩
    have hordinaryNext : Ordinary next := by
      rw [Ordinary, hlookup, if_neg fun hboth => hboth.2 rfl]
      exact hordinary
    have harrayNext : ∀ other ∈ rest, other.flags.repeated = true →
        seenItems host registry data other ≠ [] → IsArray (next.lookup other.nameInPhp) := by
      intro other hother hrepeated hitems
      have hbefore := harray other (List.mem_cons_of_mem _ hother) hrepeated hitems
      rw [hlookup]
      split
      · rename_i hname
        unfold change
        split
        · exact hbefore
        · rename_i harrives
          -- the field that arrives before under this name is a list as well
          have hsame := huniform field List.mem_cons_self other (List.mem_cons_of_mem _ hother)
            hname.1.symm harrives hitems
          rw [if_pos (hsame.trans hrepeated)]
          rintro _ ⟨⟩
          exact ⟨_, rfl⟩
      · exact hbefore
    obtain ⟨final, hfinal, hall⟩ := ih
      (fun first hfirst second hsecond => huniform first (List.mem_cons_of_mem _ hfirst) second
        (List.mem_cons_of_mem _ hsecond))
      (fun other hother => hfree other (List.mem_cons_of_mem _ hother)) hordinaryNext harrayNext
    refine ⟨final, by rw [List.foldlM_cons, hnext]; exact hfinal, fun name => ?_⟩
    rw [hall, hlookup]
    by_cases hproto : name = protoName
    · simp [hproto]
    · by_cases hname : name = field.nameInPhp
      · subst hname
        simp [hproto]
      · simp [hproto, hname, Ne.symm hname]

variable {group : List Iibin.FieldDef}

theorem foldl_change_absent (habsent : ∀ field ∈ group, seenItems host registry data field = [])
    (old : Option Value) :
    group.foldl (fun old field => change host registry data field old) old = old := by
  induction group with
  | nil => rfl
  | cons field rest ih =>
    have hfirst : change host registry data field old = old :=
      if_pos (habsent field List.mem_cons_self)
    rw [List.foldl_cons, hfirst]
    exact ih fun other hother => habsent other (List.mem_cons_of_mem _ hother)

theorem deliverAll_inherited {field : Iibin.FieldDef} (hrepeated : field.flags.repeated = true)
    (hitems : seenItems host registry data field ≠ []) (hname : field.nameInPhp ∈ inheritedNames)
    {obj : Props} (hordinary : Ordinary obj) (hnone : obj.lookup field.nameInPhp = none) :
    deliverAll env host registry data obj field = .error .typeError := by
  obtain ⟨first, rest, hcons⟩ := List.exists_cons_of_ne_nil hitems
  rw [deliverAll, hcons, List.foldlM_cons, deliver, if_pos hrepeated,
    pushProperty_inherited env hordinary hname hnone]
  rfl

/-- A list that arrives under a name of `Object.prototype` ends the decoding. -/
theorem foldlM_deliverAll_error (huniform : Uniform host registry data fields)
    (hfree : ¬ ListsFree host registry data fields) :
    ∃ error, fields.foldlM (deliverAll env host registry data) [] = .error error := by
  have hexists : ∃ field ∈ fields, field.flags.repeated = true ∧
      seenItems host registry data field ≠ [] ∧ field.nameInPhp ∈ inheritedNames := by
    simpa [ListsFree] using hfree
  obtain ⟨before, field, after, rfl, ⟨hrepeated, hitems, hname⟩, hbefore⟩ :=
    split_at_first hexists
  have hempty : ∀ other ∈ before, other.flags.repeated = true →
      seenItems host registry data other ≠ [] →
        IsArray (([] : Props).lookup other.nameInPhp) := fun _ _ _ _ => nofun
  obtain ⟨obj, hobj, hlookup⟩ := @foldlM_deliverAll env _ _ _ _
    (fun first hfirst second hsecond => huniform first (List.mem_append_left _ hfirst) second
      (List.mem_append_left _ hsecond))
    (fun other hother hlist harrives hinherited =>
      hbefore other hother ⟨hlist, harrives, hinherited⟩) [] rfl hempty
  -- what arrived before under the name would have been a list, and failed there
  have habsent : ∀ other ∈ before.filter fun other => other.nameInPhp = field.nameInPhp,
      seenItems host registry data other = [] := by
    intro other hother
    obtain ⟨hother, hsame⟩ := List.mem_filter.mp hother
    have hsame : other.nameInPhp = field.nameInPhp := by simpa using hsame
    refine Classical.byContradiction fun harrives => ?_
    have hflags := huniform other (List.mem_append_left _ hother) field (by simp) hsame harrives
      hitems
    exact hbefore other hother ⟨hflags.trans hrepeated, harrives, hsame ▸ hname⟩
  have hnone : obj.lookup field.nameInPhp = none := by
    rw [hlookup, foldl_change_absent habsent]
    exact ite_self _
  have hordinary : Ordinary obj := by
    rw [Ordinary, hlookup, if_pos rfl]
    rfl
  refine ⟨.typeError, ?_⟩
  rw [List.foldlM_append, hobj]
  refine bind_eq_error.mpr (.inr ⟨obj, rfl, ?_⟩)
  rw [List.foldlM_cons, deliverAll_inherited hrepeated hitems hname hordinary hnone]
  rfl

theorem foldl_change_lists (hsome : group ≠ [])
    (hlists : ∀ field ∈ group, field.flags.repeated = true ∧
      seenItems host registry data field ≠ []) (old : Option Value) :
    group.foldl (fun old field => change host registry data field old) old =
      some (.array (elements old ++ group.flatMap (seenItems host registry data))) := by
  induction group generalizing old with
  | nil => contradiction
  | cons field rest ih =>
    obtain ⟨hrepeated, hitems⟩ := hlists field List.mem_cons_self
    have hfirst : change host registry data field old =
        some (.array (elements old ++ seenItems host registry data field)) := by
      rw [change, if_neg hitems, if_pos hrepeated]
    rw [List.foldl_cons, hfirst]
    by_cases hrest : rest = []
    · rw [hrest]
      simp
    · rw [ih hrest fun other hother => hlists other (List.mem_cons_of_mem _ hother)]
      simp [elements]

theorem foldl_change_values {item : Iibin.FieldDef → Value}
    (hvalues : ∀ field ∈ group, field.flags.repeated = false ∧
      seenItems host registry data field = [item field]) (old : Option Value) :
    group.foldl (fun old field => change host registry data field old) old =
      (group.getLast?.map item).or old := by
  induction group using List.reverseRecOn with
  | nil => rfl
  | append_singleton rest last ih =>
    obtain ⟨hsingular, hitems⟩ := hvalues last (by simp)
    rw [List.foldl_append, List.foldl_cons, List.foldl_nil, change, hitems]
    simp [hsingular]

end

/-! ### Defaults -/

/-- The value that an entry of the table supplies for a property that is missing. -/
def FieldDef.fallback (name : Bytes) (field : FieldDef) : Option Value :=
  if name = field.name ∧ field.flags.required = false then
    match field.default with
    | .undefined => none
    | value => some value
  else none

def fallback (entries : List (Nat × FieldDef)) (name : Bytes) : Option Value :=
  entries.findSome? fun entry => entry.2.fallback name

/-- Each required property is there when its turn comes, or inherited. -/
def Supplied (obj : Props) (entries : List (Nat × FieldDef)) : Prop :=
  ∀ before entry after, entries = before ++ entry :: after → entry.2.flags.required = true →
    entry.2.name ∈ inheritedNames ∨
      ((obj.lookup entry.2.name).or (fallback before entry.2.name)).isSome

/-- What is found under a name after the defaults: nothing is put where something is
    inherited. -/
def withDefault (entries : List (Nat × FieldDef)) (name : Bytes) (own : Option Value) :
    Option Value :=
  own.or (if name ∈ inheritedNames then none else fallback entries name)

/-- An object that inherits from `Object.prototype` and has no own property with `undefined`. -/
structure Defined (obj : Props) : Prop where
  ordinary : Ordinary obj
  own : ∀ name, obj.lookup name ≠ some .undefined

theorem getProperty_eq_undefined (env : Env) {obj : Props} (hdefined : Defined obj) {name : Bytes} :
    getProperty env obj name = .undefined ↔ obj.lookup name = none ∧ name ∉ inheritedNames := by
  rcases hown : obj.lookup name with _ | value
  · rw [getProperty_of_none env hdefined.ordinary hown]
    by_cases hname : name ∈ inheritedNames <;> simp [hname]
  · have hvalue : value ≠ .undefined := fun heq => hdefined.own name (heq ▸ hown)
    simp [getProperty_of_some env hdefined.ordinary hown, hvalue]

theorem fallback_cons (entry : Nat × FieldDef) (rest : List (Nat × FieldDef)) (name : Bytes) :
    fallback (entry :: rest) name = (entry.2.fallback name).or (fallback rest name) := by
  rw [fallback, List.findSome?_cons]
  rcases entry.2.fallback name with _ | value <;> rfl

theorem withDefault_cons (entry : Nat × FieldDef) (rest : List (Nat × FieldDef)) (name : Bytes)
    (own : Option Value) :
    withDefault (entry :: rest) name own =
      withDefault rest name (withDefault [entry] name own) := by
  unfold withDefault
  split
  · simp
  · have hnone : fallback [] name = none := rfl
    rw [fallback_cons, fallback_cons, hnone, Option.or_none, Option.or_assoc]

theorem populateField_ok (env : Env) (schemaName : Bytes) {obj : Props} (hdefined : Defined obj)
    {entry : Nat × FieldDef} (hrequired : entry.2.flags.required = true →
      entry.2.name ∈ inheritedNames ∨ (obj.lookup entry.2.name).isSome) :
    ∃ next, populateField env schemaName obj entry = .ok next ∧ Defined next ∧
      ∀ name, next.lookup name = withDefault [entry] name (obj.lookup name) := by
  have hnil : ∀ name, fallback [] name = none := fun _ => rfl
  by_cases hget : getProperty env obj entry.2.name = .undefined
  · obtain ⟨hnone, hname⟩ := (getProperty_eq_undefined env hdefined).mp hget
    have hoptional : entry.2.flags.required = false := by
      refine Bool.eq_false_of_not_eq_true fun htrue => ?_
      rcases hrequired htrue with hinherited | hown
      · exact hname hinherited
      · rw [hnone] at hown
        cases hown
    have hother : ∀ name, name ≠ entry.2.name → entry.2.fallback name = none := fun name hne =>
      if_neg fun hboth => hne hboth.1
    by_cases hdefault : entry.2.default = .undefined
    · refine ⟨obj, by simp [populateField, hget, hoptional, hdefault], hdefined, fun name => ?_⟩
      have hfallback : entry.2.fallback name = none := by
        simp [FieldDef.fallback, hdefault]
      simp [withDefault, fallback_cons, hfallback, hnil]
    · have hproto := ne_protoName hname
      have hfallback : entry.2.fallback entry.2.name = some entry.2.default := by
        simp [FieldDef.fallback, hoptional]
      refine ⟨assign entry.2.name entry.2.default obj, ?_,
        ⟨hdefined.ordinary.assign hproto _, fun name => ?_⟩, fun name => ?_⟩
      · simp [populateField, hget, hoptional, setProperty_eq env hdefined.ordinary hproto]
      · rw [lookup_assign]
        split
        · simpa using hdefault
        · exact hdefined.own name
      · rw [lookup_assign]
        by_cases heq : name = entry.2.name
        · rw [if_pos heq, heq]
          simp [withDefault, hnone, hname, fallback_cons, hfallback]
        · simp [heq, withDefault, fallback_cons, hother name heq, hnil]
  · refine ⟨obj, by unfold populateField; split <;> simp_all, hdefined, fun name => ?_⟩
    have hpresent := fun hnone hname =>
      hget ((getProperty_eq_undefined env hdefined).mpr ⟨hnone, hname⟩)
    by_cases heq : name = entry.2.name
    · subst heq
      by_cases hname : entry.2.name ∈ inheritedNames
      · simp [withDefault, hname]
      · obtain ⟨value, hvalue⟩ := Option.ne_none_iff_exists'.mp fun hnone => hpresent hnone hname
        simp [withDefault, hvalue]
    · have hfallback : entry.2.fallback name = none := if_neg fun hboth => heq hboth.1
      simp [withDefault, fallback_cons, hfallback, hnil]

theorem populate_ok (env : Env) (schemaName : Bytes) {entries : List (Nat × FieldDef)} {obj : Props}
    (hdefined : Defined obj) (hsupplied : Supplied obj entries) :
    ∃ final, entries.foldlM (populateField env schemaName) obj = .ok final ∧
      ∀ name, final.lookup name = withDefault entries name (obj.lookup name) := by
  induction entries generalizing obj with
  | nil =>
    refine ⟨obj, rfl, fun name => ?_⟩
    have hnil : fallback [] name = none := rfl
    simp [withDefault, hnil]
  | cons entry rest ih =>
    have hfirst := hsupplied [] entry rest rfl
    obtain ⟨next, hnext, hdefinedNext, hlookup⟩ := populateField_ok env schemaName hdefined
      (by simpa [fallback] using hfirst)
    have hrest : Supplied next rest := by
      intro before other after hsplit hrequired
      by_cases hname : other.2.name ∈ inheritedNames
      · exact Or.inl hname
      have hsome := (hsupplied (entry :: before) other after (by rw [hsplit]; rfl)
        hrequired).resolve_left hname
      rw [fallback_cons, ← Option.or_assoc] at hsome
      refine Or.inr ?_
      rw [hlookup, withDefault, if_neg hname, fallback_cons]
      simpa [fallback] using hsome
    obtain ⟨final, hfinal, hall⟩ := ih hdefinedNext hrest
    refine ⟨final, by rw [List.foldlM_cons, hnext]; exact hfinal, fun name => ?_⟩
    rw [hall, hlookup]
    exact (withDefault_cons entry rest name _).symm

end QuicproAsync.Iibin.Js

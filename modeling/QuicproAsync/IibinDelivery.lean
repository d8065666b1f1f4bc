import QuicproAsync.IibinDecoding

/-!
# Filling the result

What the decoder does to the array or object it fills is a sequence of deliveries: a
value for a singular field, or some items for a repeated one. A list is delivered by
appending to the array under the name of the field, which fails if something else is
stored there; a value replaces what was stored. As long as no name is used in both ways
the deliveries are the changes of a log, and the entries of the result can be read off
one key at a time.
-/

namespace QuicproAsync.Iibin

open Php Fallible OrderedMap

/-- The array or object being filled. -/
def container (asObject : Bool) (entries : HashTable) : Zval :=
  if asObject then .object entries else .array entries

theorem emptyResult_eq (ctx : WireContext) :
    ctx.emptyResult = container ctx.decodeAsObject [] := rfl

inductive Delivery where
  | value (field : FieldDef) (item : Zval)
  | list (field : FieldDef) (items : List Zval)

/-- `add_assoc_zval_ex` files numeric names as integers, the other functions do not. -/
def valueKey (asObject : Bool) (name : Bytes) : Key :=
  if asObject then .str name else symtableKey name

/-- The key under which the items of a field are filed. -/
def FieldDef.entryKey (asObject : Bool) (field : FieldDef) : Key :=
  if field.flags.repeated then .str field.nameInPhp else valueKey asObject field.nameInPhp

def Delivery.key (asObject : Bool) : Delivery → Key
  | .value field _ => valueKey asObject field.nameInPhp
  | .list field _ => .str field.nameInPhp

def Delivery.isList : Delivery → Bool
  | .value _ _ => false
  | .list _ _ => true

def Delivery.apply (asObject : Bool) (entries : HashTable) (delivery : Delivery) :
    Except Fault HashTable :=
  match delivery with
  | .value field item => .ok (assign (valueKey asObject field.nameInPhp) item entries)
  | .list field items => do
      let sub ← items.foldlM addNextIndexZval (subArray entries field.nameInPhp)
      .ok (assign (.str field.nameInPhp) sub entries)

variable {asObject : Bool} {entries : HashTable}

theorem Delivery.apply_ok {delivery : Delivery} {final : HashTable}
    (happly : delivery.apply asObject entries = .ok final) :
    ∃ value, final = assign (delivery.key asObject) value entries := by
  rcases delivery with ⟨field, item⟩ | ⟨field, items⟩
  · obtain rfl := Except.ok.inj happly
    exact ⟨item, rfl⟩
  · obtain ⟨sub, -, happly⟩ := bind_eq_ok.mp happly
    obtain rfl := Except.ok.inj happly
    exact ⟨sub, rfl⟩

/-- The deliveries bind their keys and nothing else. -/
theorem isSome_lookup_foldlM {made : List Delivery} {final : HashTable}
    (hfold : made.foldlM (Delivery.apply asObject) entries = .ok final) (key : Key) :
    (final.lookup key).isSome ↔
      (entries.lookup key).isSome ∨ ∃ delivery ∈ made, delivery.key asObject = key := by
  induction made generalizing entries with
  | nil =>
    cases hfold
    simp
  | cons first rest ih =>
    rw [List.foldlM_cons] at hfold
    obtain ⟨middle, happly, hfold⟩ := bind_eq_ok.mp hfold
    obtain ⟨value, rfl⟩ := Delivery.apply_ok happly
    rw [ih hfold, lookup_assign]
    by_cases hkey : key = first.key asObject
    · simp [hkey]
    · rw [if_neg hkey]
      simp only [List.mem_cons, exists_eq_or_imp, Ne.symm hkey, false_or]

/-- The deliveries by which items of a field arrive. -/
def deliveries (field : FieldDef) (items : List Zval) : List Delivery :=
  if field.flags.repeated then
    if items = [] then [] else [.list field items]
  else items.map (.value field)

/-! ### The functions of the decoder as deliveries -/

theorem storeValue_container (asObject : Bool) (field : FieldDef) (value : Zval)
    (entries : HashTable) :
    storeValue field value (container asObject entries) =
      (deliveries field [value]).foldlM (Delivery.apply asObject) entries >>=
        fun entries' => .ok (container asObject entries') := by
  unfold storeValue deliveries container
  cases hrepeated : field.flags.repeated <;> cases asObject <;>
    simp only [Bool.false_eq_true, if_true, if_false, List.map_cons, List.map_nil, List.foldlM_cons,
      List.foldlM_nil, Delivery.apply, valueKey, List.cons_ne_nil, bind_pure]
  case false.false | false.true => rfl
  all_goals
    rcases addNextIndexZval (subArray entries field.nameInPhp) value with fault | sub
    · rfl
    · rfl

/-- Items delivered one by one, as the unpacked layout does, and all at once, as the
    packed layout does. -/
theorem deliveries_append (asObject : Bool) (field : FieldDef) (first second : List Zval)
    (entries : HashTable) :
    (deliveries field (first ++ second)).foldlM (Delivery.apply asObject) entries =
      (deliveries field first).foldlM (Delivery.apply asObject) entries >>=
        (deliveries field second).foldlM (Delivery.apply asObject) := by
  unfold deliveries
  cases hrepeated : field.flags.repeated with
  | false =>
    simp only [Bool.false_eq_true, if_false, List.map_append, List.foldlM_append]
  | true =>
    simp only [if_true]
    by_cases hfirst : first = []
    · subst hfirst
      rfl
    by_cases hsecond : second = []
    · subst hsecond
      simp only [List.append_nil, if_true, if_neg hfirst, List.foldlM_nil]
      exact (bind_pure _).symm
    -- the array just stored is the one the second part finds
    simp only [if_neg hsecond, List.append_eq_nil_iff, hfirst, false_and, if_false,
      List.foldlM_cons, List.foldlM_nil, bind_pure, Delivery.apply, List.foldlM_append,
      bind_assoc]
    rcases first.foldlM addNextIndexZval (subArray entries field.nameInPhp) with fault | sub
    · rfl
    · have hfound : subArray (assign (.str field.nameInPhp) sub entries)
          field.nameInPhp = sub := by
        rw [subArray, lookup_assign_self, Option.getD_some]
      simp only [bind, Except.bind, hfound, assign_assign]

/-! ### Deliveries as changes -/

/-- The items of the array stored under a key, none if there is nothing. -/
def listed : Option Zval → List Zval
  | some (.array table) => table.map Prod.snd
  | _ => []

/-- What is stored under a key is a PHP list, if anything. -/
def IsListed (member : Option Zval) : Prop :=
  ∀ value, member = some value → ∃ items, value = .array (listTable items)

@[simp] theorem listed_list (items : List Zval) :
    listed (some (.array (listTable items))) = items :=
  listTable_values items

theorem IsListed.none : IsListed none := by
  intro value hvalue
  cases hvalue

theorem IsListed.list (items : List Zval) : IsListed (some (.array (listTable items))) := by
  intro value hvalue
  cases hvalue
  exact ⟨items, rfl⟩

theorem IsListed.getD_eq {member : Option Zval} (hlisted : IsListed member) :
    member.getD (.array []) = .array (listTable (listed member)) := by
  rcases member with _ | value
  · rfl
  · obtain ⟨items, rfl⟩ := hlisted value rfl
    rw [listed_list, Option.getD_some]

def Delivery.change : Delivery → Option Zval → Zval
  | .value _ item, _ => item
  | .list _ items, old => .array (listTable (listed old ++ items))

def Delivery.entry (asObject : Bool) (delivery : Delivery) : Key × (Option Zval → Zval) :=
  (delivery.key asObject, delivery.change)

theorem foldlM_addNextIndexZval (items values : List Zval) :
    items.foldlM addNextIndexZval (.array (listTable values)) =
      .ok (.array (listTable (values ++ items))) := by
  induction items generalizing values with
  | nil => rw [List.append_nil]; rfl
  | cons item rest ih =>
    have hfirst : addNextIndexZval (.array (listTable values)) item =
        .ok (.array (listTable (values ++ [item]))) := by
      rw [addNextIndexZval, nextIndexInsert_listTable]
    have hrest := ih (values ++ [item])
    rw [List.append_assoc, List.singleton_append] at hrest
    rw [List.foldlM_cons, hfirst]
    exact hrest

theorem Delivery.apply_eq (asObject : Bool) (delivery : Delivery)
    (hlisted : delivery.isList = true → IsListed (entries.lookup (delivery.key asObject))) :
    delivery.apply asObject entries =
      .ok (update (delivery.key asObject) delivery.change entries) := by
  cases delivery with
  | value field item => rfl
  | list field items =>
    have hstored : IsListed (entries.lookup (.str field.nameInPhp)) := hlisted rfl
    rw [Delivery.apply, subArray, hstored.getD_eq, foldlM_addNextIndexZval]
    rfl

/-- The deliveries can be made to the table: where a list arrives there is a list or
    nothing, and no value arrives there. -/
structure Compatible (asObject : Bool) (all : List Delivery) (entries : HashTable) : Prop where
  listed : ∀ delivery ∈ all, delivery.isList = true →
    IsListed (entries.lookup (delivery.key asObject))
  uniform : ∀ first ∈ all, ∀ second ∈ all, first.key asObject = second.key asObject →
    first.isList = second.isList

theorem Compatible.step {first : Delivery} {rest : List Delivery}
    (hcompatible : Compatible asObject (first :: rest) entries) :
    Compatible asObject rest (update (first.key asObject) first.change entries) := by
  constructor
  · intro delivery hdelivery hlist
    rw [update, lookup_assign]
    split
    · rename_i hkey
      have hkind := hcompatible.uniform delivery (List.mem_cons_of_mem _ hdelivery) first
        List.mem_cons_self hkey
      cases first with
      | value field item =>
        rw [hlist] at hkind
        cases hkind
      | list field items => exact IsListed.list _
    · exact hcompatible.listed delivery (List.mem_cons_of_mem _ hdelivery) hlist
  · intro one hone other hother
    exact hcompatible.uniform one (List.mem_cons_of_mem _ hone) other
      (List.mem_cons_of_mem _ hother)

/-- **Deliveries are a log.** Compatible deliveries succeed, and their effect is that of
    the changes they stand for. -/
theorem foldlM_apply_eq {all : List Delivery} (hcompatible : Compatible asObject all entries) :
    all.foldlM (Delivery.apply asObject) entries =
      .ok (replay (all.map (Delivery.entry asObject)) entries) := by
  induction all generalizing entries with
  | nil => rfl
  | cons first rest ih =>
    rw [List.foldlM_cons, Delivery.apply_eq asObject first
      (hcompatible.listed first List.mem_cons_self)]
    exact ih hcompatible.step

/-- The entries of the result, one key at a time. -/
theorem lookup_deliveries (asObject : Bool) (all : List Delivery) (entries : HashTable)
    (key : Key) :
    (replay (all.map (Delivery.entry asObject)) entries).lookup key =
      (all.filter fun delivery => delivery.key asObject = key).foldl
        (fun old delivery => some (delivery.change old)) (entries.lookup key) := by
  rw [lookup_replay, List.filter_map, List.foldl_map]
  rfl

/-! ### Several deliveries to one key -/

def Delivery.items : Delivery → List Zval
  | .value _ item => [item]
  | .list _ items => items

theorem foldl_change_lists {made : List Delivery} (hmade : made ≠ [])
    (hlists : ∀ delivery ∈ made, delivery.isList = true) (old : Option Zval) :
    made.foldl (fun old delivery => some (delivery.change old)) old =
      some (.array (listTable (listed old ++ made.flatMap Delivery.items))) := by
  induction made generalizing old with
  | nil => exact absurd rfl hmade
  | cons first rest ih =>
    cases first with
    | value field item => cases hlists _ List.mem_cons_self
    | list field items =>
      rw [List.foldl_cons, Delivery.change, List.flatMap_cons, Delivery.items]
      by_cases hrest : rest = []
      · subst hrest
        rw [List.flatMap_nil, List.append_nil]
        rfl
      · rw [ih hrest (fun other hother => hlists other (List.mem_cons_of_mem _ hother)),
          listed_list, List.append_assoc]

theorem foldl_change_values {made : List Delivery} (hmade : made ≠ [])
    (hvalues : ∀ delivery ∈ made, delivery.isList = false) :
    ∃ item, ∀ old, made.foldl (fun old delivery => some (delivery.change old)) old = some item := by
  induction made with
  | nil => exact absurd rfl hmade
  | cons first rest ih =>
    cases first with
    | list field items => cases hvalues _ List.mem_cons_self
    | value field item =>
      by_cases hrest : rest = []
      · subst hrest
        exact ⟨item, fun old => rfl⟩
      · obtain ⟨last, hlast⟩ := ih hrest fun other hother =>
          hvalues other (List.mem_cons_of_mem _ hother)
        exact ⟨last, fun old => hlast _⟩

end QuicproAsync.Iibin

import Mathlib.Data.List.Basic
import Mathlib.Data.List.Induction
import Mathlib.Data.List.Nodup

/-!
# Insertion-ordered maps

A hash table that remembers the order of insertion is represented by the list of
its entries. Looking a key up is `List.lookup`; assigning to a key overwrites the
value in place when the key is present and appends a new entry otherwise. The
lemmas below are the complete interface used by the modules that follow: how the
two operations interact, and what they do to the list of keys.
-/

namespace QuicproAsync.OrderedMap

variable {κ : Type u} {α : Type v}

/-- The keys of a map, in insertion order. -/
def keys (entries : List (κ × α)) : List κ := entries.map Prod.fst

/-- Each element of a list has its partner in a list related to it. -/
theorem exists_related {R : κ → α → Prop} {left : List κ} {right : List α}
    (hrelated : List.Forall₂ R left right) {item : κ} (hitem : item ∈ left) :
    ∃ partner ∈ right, R item partner := by
  induction hrelated with
  | nil => cases hitem
  | @cons first second _ _ hfirst _ ih =>
    rcases List.mem_cons.mp hitem with rfl | hrest
    · exact ⟨second, List.mem_cons_self, hfirst⟩
    · obtain ⟨partner, hpartner, hthis⟩ := ih hrest
      exact ⟨partner, List.mem_cons_of_mem _ hpartner, hthis⟩

section Lookup

variable [BEq κ] [LawfulBEq κ]

variable {entries : List (κ × α)}

theorem lookup_eq_none_iff_not_mem_keys {key : κ} :
    entries.lookup key = none ↔ key ∉ keys entries := by
  rw [List.lookup_eq_none_iff]
  constructor
  · intro hall hmem
    obtain ⟨entry, hentry, rfl⟩ := List.mem_map.mp hmem
    simpa using hall entry hentry
  · intro hnot entry hentry
    simp only [bne_iff_ne, ne_eq]
    rintro rfl
    exact hnot (List.mem_map.mpr ⟨entry, hentry, rfl⟩)

theorem mem_of_lookup_eq_some {key : κ} {value : α} (hlookup : entries.lookup key = some value) :
    (key, value) ∈ entries := by
  obtain ⟨before, after, rfl, -⟩ := List.lookup_eq_some_iff.mp hlookup
  simp

/-- With distinct keys every entry is found under its key. -/
theorem lookup_of_mem {key : κ} {value : α} (hnodup : (keys entries).Nodup)
    (hmem : (key, value) ∈ entries) :
    entries.lookup key = some value := by
  induction entries with
  | nil => cases hmem
  | cons entry rest ih =>
    obtain ⟨other, previous⟩ := entry
    simp only [keys, List.map_cons, List.nodup_cons] at hnodup
    rcases List.mem_cons.mp hmem with heq | hrest
    · cases heq
      simp
    · have hne : (key == other) = false := by
        simp only [beq_eq_false_iff_ne, ne_eq]
        rintro rfl
        exact hnodup.1 (List.mem_map.mpr ⟨(key, value), hrest, rfl⟩)
      rw [List.lookup_cons, hne]
      exact ih hnodup.2 hrest

/-- Dropping entries of other keys does not hide a key. -/
theorem lookup_filter {key : κ} {keep : κ × α → Bool} (hkeep : ∀ value, keep (key, value) = true)
    (entries : List (κ × α)) : (entries.filter keep).lookup key = entries.lookup key := by
  induction entries with
  | nil => rfl
  | cons entry rest ih =>
    obtain ⟨other, value⟩ := entry
    by_cases heq : key = other
    · subst heq
      rw [List.filter_cons_of_pos (hkeep value), List.lookup_cons_self, List.lookup_cons_self]
    · have hne : (key == other) = false := beq_eq_false_iff_ne.mpr heq
      rw [List.lookup_cons, hne, ← ih, List.filter_cons]
      split
      · rw [List.lookup_cons, hne]
      · rfl

variable {first second : List (κ × α)}

/-- The order of the entries does not matter to a lookup. -/
theorem lookup_of_perm (hnodup : (keys first).Nodup) (hperm : first.Perm second) (key : κ) :
    first.lookup key = second.lookup key := by
  have hnodup' : (keys second).Nodup := (hperm.map Prod.fst).nodup_iff.mp hnodup
  apply Option.ext
  intro value
  constructor
  · intro hlookup
    exact lookup_of_mem hnodup' (hperm.mem_iff.mp (mem_of_lookup_eq_some hlookup))
  · intro hlookup
    exact lookup_of_mem hnodup (hperm.mem_iff.mpr (mem_of_lookup_eq_some hlookup))

/-- Maps with the same lookups have the same entries. -/
theorem perm_of_lookup (hfirst : (keys first).Nodup) (hsecond : (keys second).Nodup)
    (hlookup : ∀ key, first.lookup key = second.lookup key) :
    first.Perm second := by
  refine (List.perm_ext_iff_of_nodup hfirst.of_map hsecond.of_map).mpr ?_
  rintro ⟨key, value⟩
  constructor
  · intro hmem
    exact mem_of_lookup_eq_some ((hlookup key).symm.trans (lookup_of_mem hfirst hmem))
  · intro hmem
    exact mem_of_lookup_eq_some ((hlookup key).trans (lookup_of_mem hsecond hmem))

/-- A map is its keys, each with what it is looked up as. -/
theorem eq_map_of_lookup {value : κ → α} (hnodup : (keys entries).Nodup)
    (hlookup : ∀ key ∈ keys entries, entries.lookup key = some (value key)) :
    entries = (keys entries).map fun key => (key, value key) := by
  rw [keys, List.map_map]
  symm
  refine (List.map_congr_left fun entry hentry => ?_).trans (List.map_id entries)
  have hkey := hlookup entry.1 (List.mem_map_of_mem hentry)
  rw [lookup_of_mem hnodup hentry] at hkey
  exact Prod.ext rfl (Option.some.inj hkey).symm

/-- Maps with the same keys in the same order and with the same lookups are the same. -/
theorem ext_of_lookup (hnodup : (keys first).Nodup) (hkeys : keys first = keys second)
    (hlookup : ∀ key, first.lookup key = second.lookup key) :
    first = second := by
  have hperm := perm_of_lookup hnodup (hkeys ▸ hnodup) hlookup
  refine List.ext_getElem (hperm.length_eq) fun i hfirst hsecond => ?_
  have hkey : (first[i]).1 = (second[i]).1 := by
    have hget := congrArg (·[i]?) hkeys
    simpa [keys, hfirst, hsecond] using hget
  refine Prod.ext hkey ?_
  have hleft : first.lookup (first[i]).1 = some (first[i]).2 :=
    lookup_of_mem hnodup (List.getElem_mem hfirst)
  have hright : second.lookup (second[i]).1 = some (second[i]).2 :=
    lookup_of_mem (hkeys ▸ hnodup) (List.getElem_mem hsecond)
  rw [hlookup, hkey, hright] at hleft
  exact (Option.some.inj hleft).symm

end Lookup

section Assign

variable [DecidableEq κ]

/-- Assign `value` to `key`, in place if the key is present, at the end if not. -/
def assign (key : κ) (value : α) : List (κ × α) → List (κ × α)
  | [] => [(key, value)]
  | (other, previous) :: rest =>
    if other = key then (key, value) :: rest
    else (other, previous) :: assign key value rest

@[simp] theorem lookup_assign_self [BEq κ] [LawfulBEq κ] (key : κ) (value : α)
    (entries : List (κ × α)) :
    (assign key value entries).lookup key = some value := by
  induction entries with
  | nil => simp [assign]
  | cons entry rest ih =>
    obtain ⟨other, previous⟩ := entry
    by_cases heq : other = key
    · simp [assign, heq]
    · have hne : (key == other) = false := by simpa using Ne.symm heq
      simp [assign, heq, List.lookup_cons, hne, ih]

variable {key : κ}

theorem lookup_assign_ne [BEq κ] [LawfulBEq κ] {other : κ} (hne : other ≠ key) (value : α)
    (entries : List (κ × α)) :
    (assign key value entries).lookup other = entries.lookup other := by
  induction entries with
  | nil => simp [assign, hne]
  | cons entry rest ih =>
    obtain ⟨head, previous⟩ := entry
    by_cases heq : head = key
    · subst heq
      have hbeq : (other == head) = false := by simpa using hne
      simp [assign, List.lookup_cons, hbeq]
    · simp only [assign, if_neg heq, List.lookup_cons, ih]

/-- Assignment changes exactly one observable key. -/
theorem lookup_assign [BEq κ] [LawfulBEq κ] (key other : κ) (value : α) (entries : List (κ × α)) :
    (assign key value entries).lookup other =
      if other = key then some value else entries.lookup other := by
  by_cases heq : other = key
  · rw [if_pos heq, heq, lookup_assign_self]
  · rw [if_neg heq, lookup_assign_ne heq]

theorem assign_assign (key : κ) (first second : α) (entries : List (κ × α)) :
    assign key second (assign key first entries) = assign key second entries := by
  induction entries with
  | nil => simp [assign]
  | cons entry rest ih =>
    obtain ⟨other, previous⟩ := entry
    by_cases heq : other = key
    · simp [assign, heq]
    · simp [assign, heq, ih]

variable {entries : List (κ × α)}

theorem mem_assign {value : α} {entry : κ × α} (hmem : entry ∈ assign key value entries) :
    entry = (key, value) ∨ entry ∈ entries := by
  induction entries with
  | nil => exact .inl (List.mem_singleton.mp hmem)
  | cons head rest ih =>
    obtain ⟨other, previous⟩ := head
    rw [assign] at hmem
    split at hmem
    · exact (List.mem_cons.mp hmem).imp id (List.mem_cons_of_mem _)
    · rcases List.mem_cons.mp hmem with rfl | htail
      · exact .inr List.mem_cons_self
      · exact (ih htail).imp id (List.mem_cons_of_mem _)

theorem keys_assign_of_mem {value : α} (hmem : key ∈ keys entries) :
    keys (assign key value entries) = keys entries := by
  induction entries with
  | nil => cases hmem
  | cons entry rest ih =>
    obtain ⟨other, previous⟩ := entry
    by_cases heq : other = key
    · simp [assign, keys, heq]
    · have hrest : key ∈ keys rest := by
        simp only [keys, List.map_cons, List.mem_cons] at hmem
        exact hmem.resolve_left (Ne.symm heq)
      simp only [assign, if_neg heq, keys, List.map_cons, List.cons.injEq, true_and]
      exact ih hrest

/-- A key that is absent goes to the end of the map. -/
theorem assign_of_not_mem {value : α} (hnot : key ∉ keys entries) :
    assign key value entries = entries ++ [(key, value)] := by
  induction entries with
  | nil => rfl
  | cons entry rest ih =>
    obtain ⟨other, previous⟩ := entry
    simp only [keys, List.map_cons, List.mem_cons, not_or] at hnot
    have hne : other ≠ key := Ne.symm hnot.1
    simp only [assign, if_neg hne, List.cons_append, List.cons.injEq, true_and]
    exact ih hnot.2

theorem nodup_keys_assign {value : α} (hnodup : (keys entries).Nodup) :
    (keys (assign key value entries)).Nodup := by
  by_cases hmem : key ∈ keys entries
  · rwa [keys_assign_of_mem hmem]
  · rw [assign_of_not_mem hmem]
    simp only [keys, List.map_append, List.map_cons, List.map_nil]
    exact List.nodup_append.mpr ⟨hnodup, List.nodup_singleton _, by
      rintro other hother last hlast rfl
      rw [List.mem_singleton.mp hlast] at hother
      exact hmem hother⟩

/-! ### Assigning one entry after another -/

def assignAll (log entries : List (κ × α)) : List (κ × α) :=
  log.foldl (fun entries entry => assign entry.1 entry.2 entries) entries

/-- The last value that is assigned to a key stays. -/
theorem lookup_assignAll [BEq κ] [LawfulBEq κ] (log entries : List (κ × α)) (key : κ) :
    (assignAll log entries).lookup key =
      (log.reverse.lookup key).or (entries.lookup key) := by
  induction log generalizing entries with
  | nil => rfl
  | cons entry log ih =>
    rw [List.reverse_cons, List.lookup_append, Option.or_assoc]
    refine (ih (assign entry.1 entry.2 entries)).trans (congrArg _ ?_)
    rw [lookup_assign, List.lookup_cons]
    by_cases heq : key = entry.1
    · rw [if_pos heq, heq, BEq.rfl]
      rfl
    · rw [if_neg heq, beq_eq_false_iff_ne.mpr heq]
      rfl

theorem nodup_keys_assignAll (log : List (κ × α)) (hnodup : (keys entries).Nodup) :
    (keys (assignAll log entries)).Nodup := by
  induction log generalizing entries with
  | nil => exact hnodup
  | cons entry log ih => exact ih (nodup_keys_assign hnodup)

/-- In a log with distinct keys the order does not matter. -/
theorem lookup_assignAll_of_nodup [BEq κ] [LawfulBEq κ] {log : List (κ × α)}
    (hnodup : (keys log).Nodup) (entries : List (κ × α)) (key : κ) :
    (assignAll log entries).lookup key = (log.lookup key).or (entries.lookup key) := by
  rw [lookup_assignAll, lookup_of_perm hnodup (List.reverse_perm log).symm]

/-! ### The order of first occurrence -/

theorem eraseDups_concat (items : List κ) (item : κ) :
    (items ++ [item]).eraseDups =
      if item ∈ items then items.eraseDups else items.eraseDups ++ [item] := by
  rw [List.eraseDups_append]
  by_cases hmem : item ∈ items
  · simp [List.removeAll, hmem]
  · simp [List.removeAll, hmem, List.eraseDups_cons]

theorem nodup_eraseDups (items : List κ) : items.eraseDups.Nodup := by
  induction items using List.reverseRecOn with
  | nil => exact List.nodup_nil
  | append_singleton items item ih =>
    rw [eraseDups_concat]
    by_cases hmem : item ∈ items
    · rwa [if_pos hmem]
    · rw [if_neg hmem]
      exact List.nodup_append_comm.mp
        (List.nodup_cons.mpr ⟨fun hdups => hmem (List.mem_eraseDups.mp hdups), ih⟩)

theorem eraseDups_map {β γ : Type*} [BEq β] [LawfulBEq β] [BEq γ] [LawfulBEq γ] {f : β → γ}
    (hinjective : Function.Injective f) (items : List β) :
    (items.map f).eraseDups = items.eraseDups.map f := by
  induction items using List.reverseRecOn with
  | nil => rfl
  | append_singleton items item ih =>
    rw [List.map_append, List.eraseDups_append, List.eraseDups_append, ih, List.map_append]
    by_cases hmem : item ∈ items
    · have hmap : f item ∈ items.map f := List.mem_map_of_mem hmem
      simp only [List.removeAll, List.map_singleton, List.elem_eq_mem, hmem, hmap, decide_true,
        Bool.not_true, List.filter_cons, List.filter_nil, Bool.false_eq_true, if_false,
        List.eraseDups_nil, List.map_nil]
    · have hmap : f item ∉ items.map f := by
        rwa [List.mem_map_of_injective hinjective]
      simp [List.removeAll, hmem, hmap, List.eraseDups_cons]

theorem eraseDups_filter (keep : κ → Bool) (items : List κ) :
    (items.filter keep).eraseDups = items.eraseDups.filter keep := by
  induction items using List.reverseRecOn with
  | nil => rfl
  | append_singleton items item ih =>
    rw [List.filter_append, eraseDups_concat]
    by_cases hkeep : keep item = true
    · rw [List.filter_cons_of_pos hkeep, List.filter_nil, eraseDups_concat, ih]
      by_cases hmem : item ∈ items
      · rw [if_pos hmem, if_pos (List.mem_filter.mpr ⟨hmem, hkeep⟩)]
      · rw [if_neg hmem, if_neg fun hfilter => hmem (List.mem_filter.mp hfilter).1]
        simp [hkeep]
    · rw [List.filter_cons_of_neg hkeep, List.filter_nil, List.append_nil, ih]
      by_cases hmem : item ∈ items
      · rw [if_pos hmem]
      · rw [if_neg hmem]
        simp [hkeep]

/-- Items that come first anyway can be put in front. -/
theorem eraseDups_append_of_prefix {front items : List κ}
    (hfront : front.eraseDups <+: items.eraseDups) :
    (front ++ items).eraseDups = items.eraseDups := by
  obtain ⟨rest, hrest⟩ := hfront
  have hdisjoint := (List.nodup_append.mp (hrest ▸ nodup_eraseDups items)).2.2
  have hfrontGone : front.eraseDups.filter (fun item => !front.elem item) = [] :=
    List.filter_eq_nil_iff.mpr fun item hitem => by
      simpa using List.mem_eraseDups.mp hitem
  have hrestKept : rest.filter (fun item => !front.elem item) = rest :=
    List.filter_eq_self.mpr fun item hitem => by
      simpa using fun hin => hdisjoint item (List.mem_eraseDups.mpr hin) item hitem rfl
  rw [List.eraseDups_append, List.removeAll, eraseDups_filter, ← hrest, List.filter_append,
    hfrontGone, hrestKept, List.nil_append]

/-! ### Logs of changes -/

/-- Replace what is stored under `key` by what `change` makes of it. -/
def update (key : κ) (change : Option α → α) (entries : List (κ × α)) : List (κ × α) :=
  assign key (change (entries.lookup key)) entries

/-- Carry out a log of changes, each to one key. -/
def replay (log : List (κ × (Option α → α))) (entries : List (κ × α)) : List (κ × α) :=
  log.foldl (fun entries change => update change.1 change.2 entries) entries

theorem replay_cons (change : κ × (Option α → α)) (log : List (κ × (Option α → α)))
    (entries : List (κ × α)) :
    replay (change :: log) entries = replay log (update change.1 change.2 entries) := rfl

theorem replay_append (first second : List (κ × (Option α → α))) (entries : List (κ × α)) :
    replay (first ++ second) entries = replay second (replay first entries) :=
  List.foldl_append

/-- **Locality.** What a log leaves under a key is decided by its changes to that key. -/
theorem lookup_replay (log : List (κ × (Option α → α))) (entries : List (κ × α)) (key : κ) :
    (replay log entries).lookup key =
      (log.filter fun change => change.1 = key).foldl (fun old change => some (change.2 old))
        (entries.lookup key) := by
  induction log generalizing entries with
  | nil => rfl
  | cons change log ih =>
    rw [replay_cons, ih, update, lookup_assign]
    by_cases heq : change.1 = key
    · rw [if_pos heq.symm, List.filter_cons_of_pos (by simpa using heq), List.foldl_cons, heq]
    · rw [if_neg (Ne.symm heq), List.filter_cons_of_neg (by simpa using heq)]

theorem lookup_replay_of_not_mem {log : List (κ × (Option α → α))}
    (hnot : ∀ change ∈ log, change.1 ≠ key) (entries : List (κ × α)) :
    (replay log entries).lookup key = entries.lookup key := by
  rw [lookup_replay, List.filter_eq_nil_iff.mpr fun change hchange => by
    simpa using hnot change hchange]
  rfl

theorem isSome_lookup_replay (log : List (κ × (Option α → α))) (entries : List (κ × α)) (key : κ) :
    ((replay log entries).lookup key).isSome ↔
      (entries.lookup key).isSome ∨ ∃ change ∈ log, change.1 = key := by
  induction log generalizing entries with
  | nil => simp [replay]
  | cons change log ih =>
    rw [replay_cons, ih, update, lookup_assign]
    by_cases heq : change.1 = key
    · simp [heq]
    · simp [heq, Ne.symm heq]

/-- The keys of a map that was empty stand in the order in which they were first changed. -/
theorem keys_replay (log : List (κ × (Option α → α))) :
    keys (replay log []) = (keys log).eraseDups := by
  induction log using List.reverseRecOn with
  | nil => rfl
  | append_singleton log change ih =>
    have hkeys : keys (log ++ [change]) = keys log ++ [change.1] := List.map_append
    have hreplay : replay (log ++ [change]) [] =
        update change.1 change.2 (replay log []) := replay_append log [change] []
    rw [hkeys, hreplay, eraseDups_concat, update]
    by_cases hmem : change.1 ∈ keys log
    · rw [if_pos hmem, keys_assign_of_mem (ih ▸ List.mem_eraseDups.mpr hmem), ih]
    · rw [if_neg hmem, assign_of_not_mem (ih ▸ fun hkey => hmem (List.mem_eraseDups.mp hkey)),
        ← ih]
      exact List.map_append

theorem nodup_keys_replay (log : List (κ × (Option α → α))) (hnodup : (keys entries).Nodup) :
    (keys (replay log entries)).Nodup := by
  induction log generalizing entries with
  | nil => exact hnodup
  | cons change log ih => exact ih (nodup_keys_assign hnodup)

end Assign

end QuicproAsync.OrderedMap

import Mathlib.Data.List.Nodup
import Mathlib.Logic.Function.Basic

/-!
# Settings that are checked and then written

A configuration gives each setting a value of its own type. An update is a list of entries. Each
entry is passed over, is refused with an error, or is accepted as a write to one setting; the
writes are made at once, and the first refusal ends the update.

What such an update has done is the list of the writes that it has made. The rest of the module
says when writes change nothing, what they keep, and when their order does not matter.
-/

namespace QuicproAsync.ValidatedSettings

variable {σ : Type u} {ν : σ → Type v}

/-! ### The entries that are accepted -/

/-- The writes of an update: those of the entries that are accepted before one is refused. -/
def writesOf (check : α → Option (Except ε (Σ setting, ν setting))) :
    List α → List (Σ setting, ν setting)
  | [] => []
  | entry :: rest =>
    match check entry with
    | none => writesOf check rest
    | some (.error _) => []
    | some (.ok assignment) => assignment :: writesOf check rest

variable {check : α → Option (Except ε (Σ setting, ν setting))}

theorem exists_of_mem_writesOf {entries : List α} {assignment : Σ setting, ν setting}
    (hmem : assignment ∈ writesOf check entries) :
    ∃ entry ∈ entries, check entry = some (.ok assignment) := by
  induction entries with
  | nil => cases hmem
  | cons entry rest ih =>
    unfold writesOf at hmem
    cases hcheck : check entry with
    | none =>
      rw [hcheck] at hmem
      obtain ⟨other, hother, haccepted⟩ := ih hmem
      exact ⟨other, List.mem_cons_of_mem _ hother, haccepted⟩
    | some result =>
      rw [hcheck] at hmem
      cases result with
      | error error => cases hmem
      | ok written =>
        rcases List.mem_cons.mp hmem with rfl | hrest
        · exact ⟨entry, List.mem_cons_self, hcheck⟩
        · obtain ⟨other, hother, haccepted⟩ := ih hrest
          exact ⟨other, List.mem_cons_of_mem _ hother, haccepted⟩

/-- If entries with different keys write to different settings, an update whose keys are distinct
    writes no setting twice. -/
theorem nodup_writesOf (key : α → κ) {entries : List α} (hkeys : (entries.map key).Nodup)
    (hsame : ∀ first second setting left right, check first = some (.ok ⟨setting, left⟩) →
      check second = some (.ok ⟨setting, right⟩) → key first = key second) :
    ((writesOf check entries).map Sigma.fst).Nodup := by
  induction entries with
  | nil => exact List.nodup_nil
  | cons entry rest ih =>
    rw [List.map_cons, List.nodup_cons] at hkeys
    unfold writesOf
    cases hcheck : check entry with
    | none => exact ih hkeys.2
    | some result =>
      cases result with
      | error error => exact List.nodup_nil
      | ok written =>
        rw [List.map_cons, List.nodup_cons]
        refine ⟨fun hmem => ?_, ih hkeys.2⟩
        obtain ⟨⟨setting, value⟩, hagain, rfl⟩ := List.mem_map.mp hmem
        obtain ⟨other, hother, haccepted⟩ := exists_of_mem_writesOf hagain
        have hkey := hsame entry other _ _ _ hcheck haccepted
        exact hkeys.1 (List.mem_map.mpr ⟨other, hother, hkey.symm⟩)

/-- What an entry writes, if it is accepted. -/
def accepted (check : α → Option (Except ε (Σ setting, ν setting))) (entry : α) :
    Option (Σ setting, ν setting) :=
  match check entry with
  | some (.ok assignment) => some assignment
  | _ => none

theorem accepted_eq_some {entry : α} {assignment : Σ setting, ν setting}
    (hchecked : check entry = some (.ok assignment)) :
    accepted check entry = some assignment := by
  rw [accepted, hchecked]

/-- If no entry is refused, all that are accepted are written. -/
theorem writesOf_of_fine {entries : List α}
    (hfine : ∀ entry ∈ entries, ∀ error, check entry ≠ some (.error error)) :
    writesOf check entries = entries.filterMap (accepted check) := by
  induction entries with
  | nil => rfl
  | cons entry rest ih =>
    rw [List.forall_mem_cons] at hfine
    unfold writesOf
    rw [List.filterMap_cons, ← ih hfine.2, accepted]
    cases hcheck : check entry with
    | none => rfl
    | some result =>
      cases result with
      | error error => exact absurd hcheck (hfine.1 error)
      | ok assignment => rfl

variable [DecidableEq σ]

/-! ### Writes -/

def write (config : ∀ setting, ν setting) (assignment : Σ setting, ν setting) :
    ∀ setting, ν setting :=
  Function.update config assignment.1 assignment.2

def writeAll (config : ∀ setting, ν setting) (assignments : List (Σ setting, ν setting)) :
    ∀ setting, ν setting :=
  assignments.foldl write config

theorem writeAll_of_not_mem {config : ∀ setting, ν setting}
    {assignments : List (Σ setting, ν setting)} {setting : σ}
    (hnot : setting ∉ assignments.map Sigma.fst) :
    writeAll config assignments setting = config setting := by
  induction assignments generalizing config with
  | nil => rfl
  | cons assignment rest ih =>
    rw [List.map_cons, List.mem_cons, not_or] at hnot
    rw [writeAll, List.foldl_cons, ← writeAll, ih hnot.2]
    exact Function.update_of_ne hnot.1 ..

/-- If no setting is written twice, each has what was written. -/
theorem writeAll_of_mem {config : ∀ setting, ν setting}
    {assignments : List (Σ setting, ν setting)} (hnodup : (assignments.map Sigma.fst).Nodup)
    {setting : σ} {value : ν setting} (hmem : ⟨setting, value⟩ ∈ assignments) :
    writeAll config assignments setting = value := by
  induction assignments generalizing config with
  | nil => cases hmem
  | cons assignment rest ih =>
    rw [List.map_cons, List.nodup_cons] at hnodup
    rw [writeAll, List.foldl_cons, ← writeAll]
    rcases List.mem_cons.mp hmem with rfl | hrest
    · rw [writeAll_of_not_mem hnodup.1]
      exact Function.update_self ..
    · exact ih hnodup.2 hrest

/-- Writes to different settings may be made in any order. -/
theorem writeAll_perm {config : ∀ setting, ν setting}
    {first second : List (Σ setting, ν setting)} (hnodup : (first.map Sigma.fst).Nodup)
    (hperm : first.Perm second) : writeAll config first = writeAll config second := by
  apply hperm.foldl_eq'
  intro left hleft right hright current
  by_cases hsame : left = right
  · rw [hsame]
  · have hne : left.1 ≠ right.1 := fun heq =>
      hsame (List.inj_on_of_nodup_map hnodup hleft hright heq)
    exact Function.update_comm hne ..

/-- If no setting is written twice, the writes change nothing if and only if each of them writes
    the value that is there. -/
theorem writeAll_eq_self_iff {config : ∀ setting, ν setting}
    {assignments : List (Σ setting, ν setting)} (hnodup : (assignments.map Sigma.fst).Nodup) :
    writeAll config assignments = config ↔
      ∀ assignment ∈ assignments, config assignment.1 = assignment.2 := by
  induction assignments with
  | nil => simp [writeAll]
  | cons assignment rest ih =>
    rw [List.map_cons, List.nodup_cons] at hnodup
    rw [List.forall_mem_cons]
    constructor
    · intro hsame
      -- the later writes leave the first setting alone
      have hfirst : config assignment.1 = assignment.2 := by
        have hvalue := congrFun hsame assignment.1
        rw [writeAll, List.foldl_cons, ← writeAll, writeAll_of_not_mem hnodup.1, write,
          Function.update_self] at hvalue
        exact hvalue.symm
      refine ⟨hfirst, (ih hnodup.2).mp ?_⟩
      rwa [writeAll, List.foldl_cons, write, ← hfirst, Function.update_eq_self] at hsame
    · rintro ⟨hfirst, hrest⟩
      rw [writeAll, List.foldl_cons, write, ← hfirst, Function.update_eq_self]
      exact (ih hnodup.2).mpr hrest

/-- What holds of the value of a setting holds after a write, if it holds of what is written. -/
theorem write_invariant {setting : σ} {P : ν setting → Prop} {config : ∀ setting, ν setting}
    {assignment : Σ setting, ν setting} (hconfig : P (config setting))
    (hwrite : ∀ value, assignment = ⟨setting, value⟩ → P value) :
    P (write config assignment setting) := by
  obtain ⟨target, value⟩ := assignment
  by_cases htarget : setting = target
  · subst htarget
    rw [write, Function.update_self]
    exact hwrite value rfl
  · rw [write, Function.update_of_ne htarget]
    exact hconfig

theorem writeAll_invariant {setting : σ} {P : ν setting → Prop} {config : ∀ setting, ν setting}
    {assignments : List (Σ setting, ν setting)} (hconfig : P (config setting))
    (hwrites : ∀ value, ⟨setting, value⟩ ∈ assignments → P value) :
    P (writeAll config assignments setting) := by
  induction assignments generalizing config with
  | nil => exact hconfig
  | cons assignment rest ih =>
    rw [writeAll, List.foldl_cons, ← writeAll]
    apply ih
    · apply write_invariant hconfig
      rintro value rfl
      exact hwrites value List.mem_cons_self
    · intro value hvalue
      exact hwrites value (List.mem_cons_of_mem _ hvalue)

/-! ### Updates -/

/-- The loop of an update: the configuration after it, and the error if an entry is refused. -/
def applyEntries (check : α → Option (Except ε (Σ setting, ν setting)))
    (config : ∀ setting, ν setting) : List α → (∀ setting, ν setting) × Option ε
  | [] => (config, none)
  | entry :: rest =>
    match check entry with
    | none => applyEntries check config rest
    | some (.error error) => (config, some error)
    | some (.ok assignment) => applyEntries check (write config assignment) rest

theorem applyEntries_fst (config : ∀ setting, ν setting) (entries : List α) :
    (applyEntries check config entries).1 = writeAll config (writesOf check entries) := by
  induction entries generalizing config with
  | nil => rfl
  | cons entry rest ih =>
    unfold applyEntries writesOf
    cases check entry with
    | none => exact ih config
    | some result =>
      cases result with
      | error error => rfl
      | ok assignment => exact ih (write config assignment)

theorem applyEntries_snd {config : ∀ setting, ν setting} {entries : List α} :
    (applyEntries check config entries).2 = none ↔
      ∀ entry ∈ entries, ∀ error, check entry ≠ some (.error error) := by
  induction entries generalizing config with
  | nil => simp [applyEntries]
  | cons entry rest ih =>
    rw [List.forall_mem_cons]
    unfold applyEntries
    cases check entry with
    | none => simp [ih]
    | some result =>
      cases result with
      | error error => simp
      | ok assignment => simp [ih]

/-- The order of the entries does not matter, if none is refused and no setting is written twice. -/
theorem applyEntries_perm {config : ∀ setting, ν setting} {entries reordered : List α}
    (hnodup : ((writesOf check entries).map Sigma.fst).Nodup)
    (hsuccess : (applyEntries check config entries).2 = none) (hperm : entries.Perm reordered) :
    applyEntries check config reordered = applyEntries check config entries := by
  have hfine := applyEntries_snd.mp hsuccess
  have hfine' : ∀ entry ∈ reordered, ∀ error, check entry ≠ some (.error error) :=
    fun entry hentry => hfine entry (hperm.mem_iff.mpr hentry)
  refine Prod.ext ?_ ((applyEntries_snd.mpr hfine').trans hsuccess.symm)
  rw [applyEntries_fst, applyEntries_fst, writesOf_of_fine hfine']
  rw [writesOf_of_fine hfine] at hnodup ⊢
  exact (writeAll_perm hnodup (hperm.filterMap (accepted check))).symm

end QuicproAsync.ValidatedSettings

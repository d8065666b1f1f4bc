import Mathlib.Data.List.Basic
import Mathlib.Logic.Function.Basic

/-!
# Child processes

What a Unix kernel keeps for a process about its children. A child stays in the table,
and its pid stays taken, from the fork until the parent reaps it; a pid may be given out
again after that. The table also remembers children that have been reaped, so that one
can speak about every child there ever was, and it distinguishes the children the
program forked itself from those it inherited.

`Tracks` says that an array of slots, an empty slot holding 0, is a faithful list of the
own children that are still unreaped. The rules say how it follows a fork, a reaping and
a signal. `Swept` is the invariant of a loop that kills the child of one slot after
another.
-/

namespace QuicproAsync.Processes

structure Process where
  pid : Int
  /-- Forked by the program itself. -/
  own : Bool
  reaped : Bool
  /-- Has been sent SIGKILL before it was reaped. -/
  killed : Bool
deriving DecidableEq, Repr

/-- The children of a process. Two of them that are both unreaped have different pids. -/
structure Children where
  table : List Process
  positive : ∀ process ∈ table, 0 < process.pid
  distinct : table.Pairwise fun one other =>
    one.reaped = false → other.reaped = false → one.pid ≠ other.pid

namespace Children

def none : Children := ⟨[], by simp, List.Pairwise.nil⟩

/-- An unreaped child has this pid, so that a wait may report it. -/
def Unreaped (children : Children) (pid : Int) : Prop :=
  ∃ process ∈ children.table, process.pid = pid ∧ process.reaped = false

/-- An unreaped child that the program forked itself has this pid. -/
def Own (children : Children) (pid : Int) : Prop :=
  ∃ process ∈ children.table, process.pid = pid ∧ process.own = true ∧ process.reaped = false

/-- A pid the kernel may give to a new child. -/
def Fresh (children : Children) (pid : Int) : Prop := 0 < pid ∧ ¬ children.Unreaped pid

instance (children : Children) (pid : Int) : Decidable (children.Unreaped pid) :=
  inferInstanceAs (Decidable (∃ _ ∈ _, _))

instance (children : Children) (pid : Int) : Decidable (children.Fresh pid) :=
  inferInstanceAs (Decidable (_ ∧ _))

def spawn (children : Children) (pid : Int) (hfresh : children.Fresh pid) : Children where
  table := children.table ++ [⟨pid, true, false, false⟩]
  positive := by
    intro process hprocess
    rcases List.mem_append.mp hprocess with hold | hnew
    · exact children.positive process hold
    · rw [List.mem_singleton.mp hnew]
      exact hfresh.1
  distinct := by
    rw [List.pairwise_append]
    refine ⟨children.distinct, List.pairwise_singleton _ _, ?_⟩
    intro process hprocess other hother hreaped _ hpid
    rw [List.mem_singleton.mp hother] at hpid
    exact hfresh.2 ⟨process, hprocess, hpid, hreaped⟩

/-- A change of the entries that keeps every pid and makes none unreaped again. -/
def change (children : Children) (entry : Process → Process)
    (hpid : ∀ process, (entry process).pid = process.pid)
    (hreaped : ∀ process, (entry process).reaped = false → process.reaped = false) :
    Children where
  table := children.table.map entry
  positive := by
    intro process hprocess
    obtain ⟨old, hold, rfl⟩ := List.mem_map.mp hprocess
    rw [hpid]
    exact children.positive old hold
  distinct := by
    refine children.distinct.map entry ?_
    intro one other hdistinct hone hother
    rw [hpid, hpid]
    exact hdistinct (hreaped one hone) (hreaped other hother)

/-- A wait has reported the child with this pid. -/
def reap (children : Children) (pid : Int) : Children :=
  children.change
    (fun process => if process.pid = pid then { process with reaped := true } else process)
    (fun process => by split <;> rfl)
    (fun process hreaped => by
      split at hreaped
      · cases hreaped
      · exact hreaped)

/-- SIGKILL has been sent to this pid. -/
def kill (children : Children) (pid : Int) : Children :=
  children.change
    (fun process => if process.pid = pid ∧ process.reaped = false
      then { process with killed := true } else process)
    (fun process => by split <;> rfl)
    (fun process hreaped => by
      split at hreaped
      · exact hreaped
      · exact hreaped)

/-- The same processes, none of them counted as the program's own. -/
def disown (children : Children) : Children :=
  children.change (fun process => { process with own := false }) (fun _ => rfl)
    (fun _ hreaped => hreaped)

theorem Own.unreaped {children : Children} {pid : Int} (hown : children.Own pid) :
    children.Unreaped pid := by
  obtain ⟨process, hprocess, hpid, -, hreaped⟩ := hown
  exact ⟨process, hprocess, hpid, hreaped⟩

theorem Own.pos {children : Children} {pid : Int} (hown : children.Own pid) : 0 < pid := by
  obtain ⟨process, hprocess, rfl, -, -⟩ := hown
  exact children.positive process hprocess

/-- The kernel can always make another child. -/
theorem exists_fresh (children : Children) : ∃ pid, children.Fresh pid := by
  have hbound : ∀ table : List Process, ∃ bound : Int, 0 < bound ∧
      ∀ process ∈ table, process.pid < bound := by
    intro table
    induction table with
    | nil => exact ⟨1, Int.one_pos, nofun⟩
    | cons process table ih =>
      obtain ⟨bound, hpos, hbelow⟩ := ih
      refine ⟨max bound (process.pid + 1), by omega, ?_⟩
      intro other hother
      rcases List.mem_cons.mp hother with rfl | hrest
      · omega
      · have := hbelow other hrest
        omega
  obtain ⟨bound, hpos, hbelow⟩ := hbound children.table
  refine ⟨bound, hpos, ?_⟩
  rintro ⟨process, hprocess, rfl, -⟩
  exact Int.lt_irrefl _ (hbelow process hprocess)

theorem own_spawn {children : Children} {pid : Int} (hfresh : children.Fresh pid) (other : Int) :
    (children.spawn pid hfresh).Own other ↔ children.Own other ∨ other = pid := by
  constructor
  · rintro ⟨process, hprocess, hpid, hrest⟩
    rcases List.mem_append.mp hprocess with hold | hnew
    · exact Or.inl ⟨process, hold, hpid, hrest⟩
    · rw [List.mem_singleton.mp hnew] at hpid
      exact Or.inr hpid.symm
  · rintro (⟨process, hprocess, hrest⟩ | rfl)
    · exact ⟨process, List.mem_append_left _ hprocess, hrest⟩
    · exact ⟨_, List.mem_append_right _ (List.mem_singleton.mpr rfl), rfl, rfl, rfl⟩

theorem own_reap (children : Children) (pid other : Int) :
    (children.reap pid).Own other ↔ children.Own other ∧ other ≠ pid := by
  constructor
  · rintro ⟨process, hprocess, hpid, hown, hreaped⟩
    obtain ⟨old, hold, rfl⟩ := List.mem_map.mp hprocess
    split at hreaped
    · cases hreaped
    · rename_i hother
      rw [if_neg hother] at hpid hown
      exact ⟨⟨old, hold, hpid, hown, hreaped⟩, hpid ▸ hother⟩
  · rintro ⟨⟨process, hprocess, hpid, hrest⟩, hother⟩
    refine ⟨process, List.mem_map.mpr ⟨process, hprocess, ?_⟩, hpid, hrest⟩
    exact if_neg (hpid ▸ hother)

theorem own_kill (children : Children) (pid other : Int) :
    (children.kill pid).Own other ↔ children.Own other := by
  constructor
  · rintro ⟨process, hprocess, hpid, hown, hreaped⟩
    obtain ⟨old, hold, rfl⟩ := List.mem_map.mp hprocess
    refine ⟨old, hold, ?_⟩
    split at hpid
    · rename_i hsent
      rw [if_pos hsent] at hown
      exact ⟨hpid, hown, hsent.2⟩
    · rename_i hspared
      rw [if_neg hspared] at hown hreaped
      exact ⟨hpid, hown, hreaped⟩
  · rintro ⟨process, hprocess, hpid, hown, hreaped⟩
    refine ⟨_, List.mem_map.mpr ⟨process, hprocess, rfl⟩, ?_⟩
    split
    · exact ⟨hpid, hown, hreaped⟩
    · exact ⟨hpid, hown, hreaped⟩

end Children

/-! ### Slots that track the own children -/

variable {ι : Type*} {slots : ι → Int} {children : Children}

/-- The non-empty slots hold exactly the pids of the own unreaped children, each once. -/
structure Tracks (slots : ι → Int) (children : Children) : Prop where
  own : ∀ i, slots i ≠ 0 → children.Own (slots i)
  apart : ∀ i j, slots i ≠ 0 → slots i = slots j → i = j
  found : ∀ pid, children.Own pid → ∃ i, slots i = pid

theorem Tracks.of_empty (hempty : ∀ i, slots i = 0)
    (hinherited : ∀ process ∈ children.table, process.own = false) : Tracks slots children where
  own i hslot := absurd (hempty i) hslot
  apart i _ hslot := absurd (hempty i) hslot
  found := by
    rintro pid ⟨process, hprocess, -, hown, -⟩
    rw [hinherited process hprocess] at hown
    cases hown

theorem Tracks.spawn [DecidableEq ι] (htracks : Tracks slots children) {i : ι} {pid : Int}
    (hempty : slots i = 0) (hfresh : children.Fresh pid) :
    Tracks (Function.update slots i pid) (children.spawn pid hfresh) where
  own j hslot := by
    rw [Children.own_spawn]
    rcases eq_or_ne j i with rfl | hother
    · exact Or.inr (Function.update_self _ _ _)
    · rw [Function.update_of_ne hother] at hslot ⊢
      exact Or.inl (htracks.own j hslot)
  apart := by
    -- The new pid is in no other slot, since those hold unreaped children.
    have hnew : ∀ j, slots j ≠ pid := by
      intro j hpid
      have hslot : slots j ≠ 0 := hpid ▸ Int.ne_of_gt hfresh.1
      exact hfresh.2 (hpid ▸ (htracks.own j hslot).unreaped)
    intro j k hslot hsame
    rcases eq_or_ne j i with rfl | hj
    · rcases eq_or_ne k j with rfl | hk
      · rfl
      · rw [Function.update_self, Function.update_of_ne hk] at hsame
        exact absurd hsame.symm (hnew k)
    · rw [Function.update_of_ne hj] at hslot hsame
      rcases eq_or_ne k i with rfl | hk
      · rw [Function.update_self] at hsame
        exact absurd hsame (hnew j)
      · rw [Function.update_of_ne hk] at hsame
        exact htracks.apart j k hslot hsame
  found other hown := by
    rcases (Children.own_spawn hfresh other).mp hown with hold | rfl
    · obtain ⟨j, hj⟩ := htracks.found other hold
      have hother : j ≠ i := by
        rintro rfl
        exact Int.ne_of_gt hold.pos (hj ▸ hempty)
      exact ⟨j, (Function.update_of_ne hother _ _).trans hj⟩
    · exact ⟨i, Function.update_self _ _ _⟩

/-- A child that has been reaped leaves its slot, if it has one. -/
theorem Tracks.reap (htracks : Tracks slots children) (pid : Int) :
    Tracks (fun i => if slots i = pid then 0 else slots i) (children.reap pid) where
  own i hslot := by
    split at hslot
    · exact absurd rfl hslot
    · rename_i hother
      rw [if_neg hother, Children.own_reap]
      exact ⟨htracks.own i hslot, hother⟩
  apart i j hslot hsame := by
    split at hslot
    · exact absurd rfl hslot
    · rename_i hother
      rw [if_neg hother] at hsame
      split at hsame
      · exact absurd hsame hslot
      · exact htracks.apart i j hslot hsame
  found other hown := by
    obtain ⟨hown, hother⟩ := (Children.own_reap children pid other).mp hown
    obtain ⟨i, rfl⟩ := htracks.found other hown
    exact ⟨i, if_neg hother⟩

theorem Tracks.kill (htracks : Tracks slots children) (pid : Int) :
    Tracks slots (children.kill pid) where
  own i hslot := (Children.own_kill children pid _).mpr (htracks.own i hslot)
  apart := htracks.apart
  found other hown := htracks.found other ((Children.own_kill children pid other).mp hown)

/-! ### Killing slot by slot -/

/-- Every own unreaped child has been sent SIGKILL or is in a slot that is still due. -/
def Swept (slots : ι → Int) (due : ι → Prop) (children : Children) : Prop :=
  ∀ process ∈ children.table, process.own = true → process.reaped = false →
    process.killed = true ∨ ∃ i, due i ∧ slots i = process.pid

variable {due : ι → Prop}

theorem Tracks.swept (htracks : Tracks slots children) (hdue : ∀ i, slots i ≠ 0 → due i) :
    Swept slots due children := by
  intro process hprocess hown hreaped
  obtain ⟨i, hi⟩ := htracks.found process.pid ⟨process, hprocess, rfl, hown, hreaped⟩
  refine Or.inr ⟨i, hdue i ?_, hi⟩
  rw [hi]
  exact Int.ne_of_gt (children.positive process hprocess)

theorem Swept.kill {rest : ι → Prop} (hswept : Swept slots due children) {i : ι}
    (hrest : ∀ j, due j → j = i ∨ rest j) : Swept slots rest (children.kill (slots i)) := by
  intro process hprocess hown hreaped
  obtain ⟨old, hold, rfl⟩ := List.mem_map.mp hprocess
  split at hreaped
  · rename_i hsent
    rw [if_pos hsent]
    exact Or.inl rfl
  · rename_i hspared
    rw [if_neg hspared] at hown ⊢
    rcases hswept old hold hown hreaped with hkilled | ⟨j, hdue, hj⟩
    · exact Or.inl hkilled
    · rcases hrest j hdue with rfl | hlater
      · exact absurd ⟨hj.symm, hreaped⟩ hspared
      · exact Or.inr ⟨j, hlater, hj⟩

/-- Slots that are empty need not be visited. -/
theorem Swept.skip {rest : ι → Prop} (hswept : Swept slots due children)
    (hrest : ∀ i, due i → slots i ≤ 0 ∨ rest i) : Swept slots rest children := by
  intro process hprocess hown hreaped
  rcases hswept process hprocess hown hreaped with hkilled | ⟨i, hdue, hi⟩
  · exact Or.inl hkilled
  · rcases hrest i hdue with hempty | hlater
    · exact absurd (children.positive process hprocess) (Int.not_lt.mpr (hi ▸ hempty))
    · exact Or.inr ⟨i, hlater, hi⟩

/-- With no slot due any more every own child is accounted for. -/
theorem Swept.settled (hswept : Swept slots due children) (hdone : ∀ i, ¬ due i) :
    ∀ process ∈ children.table, process.own = true →
      process.reaped = true ∨ process.killed = true := by
  intro process hprocess hown
  cases hreaped : process.reaped with
  | true => exact Or.inl rfl
  | false =>
    rcases hswept process hprocess hown hreaped with hkilled | ⟨i, hdue, -⟩
    · exact Or.inr hkilled
    · exact absurd hdue (hdone i)

end QuicproAsync.Processes

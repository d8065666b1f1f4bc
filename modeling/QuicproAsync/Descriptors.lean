import Mathlib.Data.List.Nodup
import Mathlib.Data.List.Range

/-!
# Descriptors that are opened and closed

The system gives out descriptors and takes them back. A number that has been closed may be given
out again, so the descriptors are numbered here in the order in which they are opened, and a table
keeps how many there are and which were closed.

A table is settled for a descriptor, or for none, if that is what is still open and every other one
was closed exactly once. Opening and closing lead from one settled table to another.
-/

namespace QuicproAsync.Descriptors

structure Table where
  opened : Nat
  closed : List Nat

namespace Table

def empty : Table := ⟨0, []⟩

/-- The descriptor that is opened next, and the table after it. -/
def acquire (table : Table) : Nat × Table := (table.opened, ⟨table.opened + 1, table.closed⟩)

def release (table : Table) (fd : Nat) : Table := ⟨table.opened, table.closed ++ [fd]⟩

/-- The descriptors that were opened and not closed. -/
def stillOpen (table : Table) : List Nat :=
  (List.range table.opened).filter fun fd => decide (fd ∉ table.closed)

end Table

/-- What is still open is the given descriptor or nothing, and every other one was closed exactly
    once. -/
structure Settled (table : Table) (held : Option Nat) : Prop where
  stillOpen : table.stillOpen = held.toList
  once : table.closed.Nodup
  known : ∀ fd ∈ table.closed, fd < table.opened

variable {table : Table}

theorem settled_empty : Settled .empty none := ⟨rfl, List.nodup_nil, by simp [Table.empty]⟩

theorem Settled.acquire (hsettled : Settled table none) :
    Settled table.acquire.2 (some table.acquire.1) := by
  have hfresh : table.opened ∉ table.closed := fun hclosed =>
    Nat.lt_irrefl _ (hsettled.known _ hclosed)
  refine ⟨?_, hsettled.once, ?_⟩
  · have hbefore : (List.range table.opened).filter (fun fd => decide (fd ∉ table.closed)) = [] :=
      hsettled.stillOpen
    rw [Table.stillOpen, Table.acquire, List.range_succ, List.filter_append, hbefore,
      List.nil_append, List.filter_singleton]
    simp [hfresh]
  · intro fd hclosed
    exact Nat.lt_succ_of_lt (hsettled.known fd hclosed)

theorem Settled.release {fd : Nat} (hsettled : Settled table (some fd)) :
    Settled (table.release fd) none := by
  have hopen : fd ∈ table.stillOpen := by
    rw [hsettled.stillOpen]
    exact List.mem_singleton_self fd
  obtain ⟨hrange, hnot⟩ := List.mem_filter.mp hopen
  have hnot' : fd ∉ table.closed := of_decide_eq_true hnot
  refine ⟨?_, ?_, ?_⟩
  · -- what was open besides it is nothing
    rw [Table.stillOpen, Table.release, Option.toList_none, List.filter_eq_nil_iff]
    intro other hother hstill
    have hstill' := of_decide_eq_true hstill
    rw [List.mem_append, List.mem_singleton, not_or] at hstill'
    have hmem : other ∈ table.stillOpen :=
      List.mem_filter.mpr ⟨hother, decide_eq_true hstill'.1⟩
    rw [hsettled.stillOpen] at hmem
    exact hstill'.2 (List.mem_singleton.mp hmem)
  · rw [Table.release, List.nodup_append]
    refine ⟨hsettled.once, List.nodup_singleton fd, ?_⟩
    rintro other hother _ hlast rfl
    rw [List.mem_singleton.mp hlast] at hother
    exact hnot' hother
  · intro other hother
    rcases List.mem_append.mp hother with hbefore | hlast
    · exact hsettled.known other hbefore
    · rw [List.mem_singleton.mp hlast]
      exact List.mem_range.mp hrange

end QuicproAsync.Descriptors

import Mathlib.Data.List.Basic

/-!
# The sending side of a stream

A stream under flow control accepts a beginning of what it is offered. An offer may be marked as
the last one; the stream is finished when such an offer is accepted as a whole, and from then on
every offer is refused.
-/

namespace QuicproAsync

universe u

variable {α : Type u}

structure SendStream (α : Type u) where
  accepted : List α
  finished : Bool

namespace SendStream

/-- Nothing was sent so far. -/
def fresh : SendStream α := ⟨[], false⟩

/-- What an offer does. `room` is what flow control lets through; none if the call fails for
    another reason. -/
def offer (stream : SendStream α) (items : List α) (last : Bool) (room : Option Nat) :
    Option (SendStream α) :=
  if stream.finished then none
  else room.map fun room =>
    { accepted := stream.accepted ++ items.take room
      finished := last && decide (items.length ≤ room) }

variable {stream next : SendStream α} {items : List α} {last : Bool}

theorem offer_finished (hfinished : stream.finished = true) (items : List α) (last : Bool)
    (room : Option Nat) : stream.offer items last room = none := if_pos hfinished

theorem exists_room {room : Option Nat} (hoffer : stream.offer items last room = some next) :
    ∃ count, room = some count ∧ stream.finished = false ∧
      next.accepted = stream.accepted ++ items.take count ∧
      next.finished = (last && decide (items.length ≤ count)) := by
  obtain ⟨hopen, hoffer⟩ := Option.ite_none_left_eq_some.mp hoffer
  obtain ⟨count, hcount, rfl⟩ := Option.map_eq_some_iff.mp hoffer
  exact ⟨count, hcount, by simpa using hopen, rfl, rfl⟩

/-- The last offer either finishes the stream, or is cut off. -/
theorem offer_last {room : Option Nat} (hoffer : stream.offer items true room = some next) :
    (next.finished = true ∧ next.accepted = stream.accepted ++ items) ∨
      (next.finished = false ∧
        next.accepted.length < stream.accepted.length + items.length) := by
  obtain ⟨count, -, -, haccepted, hfinished⟩ := exists_room hoffer
  by_cases hwhole : items.length ≤ count
  · rw [List.take_of_length_le hwhole] at haccepted
    exact Or.inl ⟨by simp [hfinished, hwhole], haccepted⟩
  · refine Or.inr ⟨by simp [hfinished, hwhole], ?_⟩
    rw [haccepted, List.length_append, List.length_take]
    omega

/-- The last offer is accepted with its mark exactly if there is room for all of it. -/
theorem offer_last_iff {count : Nat} (hoffer : stream.offer items true (some count) = some next) :
    (next.accepted = stream.accepted ++ items ∧ next.finished = true) ↔ items.length ≤ count := by
  obtain ⟨_, hcount, -, haccepted, hfinished⟩ := exists_room hoffer
  cases hcount
  constructor
  · rintro ⟨-, hlast⟩
    simpa [hfinished] using hlast
  · intro hwhole
    rw [List.take_of_length_le hwhole] at haccepted
    exact ⟨haccepted, by simp [hfinished, hwhole]⟩

end SendStream

end QuicproAsync

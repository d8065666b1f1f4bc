import QuicproAsync.SessionTickets

/-!
# The budget of the busy poll

The loop of `quicpro_poll` reads the clock at the end of each round, and stops when the budget for
busy polling is used up. If the call runs in a Fiber, it is then to be suspended, so that others can
go on; `quicpro_yield_if_needed` does this. Its argument is the budget that is left, and it suspends
if this is zero or less.

The loop calls it with the time by which the budget is exceeded instead. That is never negative, and
it is zero only if the clock was read in the very microsecond in which the budget ended. In a build
for PHP 8.1 to 8.3 the macro that suspends is empty, and nothing is suspended at all.
-/

namespace QuicproAsync.BusyPoll

open Php ClientSession SessionTickets

/-! ### Fibers -/

/-- What the headers of PHP offer: the current Fiber and a way to suspend it, only the current
    Fiber, or neither. -/
inductive FiberApi where
  | php84
  | php81
  | unsupported
deriving DecidableEq

/-- `FIBER_IS_ACTIVE()`. -/
def FiberApi.isActive : FiberApi → Bool → Bool
  | .php84, inFiber => inFiber
  | .php81, inFiber => inFiber
  | .unsupported, _ => false

/-- Whether `FIBER_SUSPEND()` suspends the current Fiber. -/
def FiberApi.suspends : FiberApi → Bool
  | .php84 => true
  | .php81 => false
  | .unsupported => false

/-- Whether the Fiber has been suspended. -/
def quicproYieldIfNeeded (api : FiberApi) (inFiber : Bool) (budgetUs : Int) : Bool :=
  if budgetUs ≤ 0 ∧ api.isActive inFiber = true then api.suspends else false

/-! ### The clock -/

structure Timespec where
  sec : Int
  nsec : Int

/-- `elapsed_us`. The difference is a `long`, and is stored in an `int`. -/
def elapsedUs (startTs nowTs : Timespec) : Int :=
  ((nowTs.sec - startTs.sec) * 1000000 + (nowTs.nsec - startTs.nsec).tdiv 1000).bmod (2 ^ 32)

/-- A round, and the clock at its end. -/
structure Reading where
  round : Round
  nowTs : Timespec

/-- The round with the time that has elapsed. -/
def Reading.timed (startTs : Timespec) (reading : Reading) : Round :=
  { reading.round with elapsed := elapsedUs startTs reading.nowTs }

/-! ### The loop -/

/-- Why the loop has ended. -/
inductive Ending where
  | inactive
  | budget (elapsed : Int) (suspended : Bool)

/-- **The busy poll yields**: if the loop has ended because the budget was used up, the Fiber has
    been suspended. -/
def Ending.Yields : Ending → Prop
  | .inactive => True
  | .budget _ suspended => suspended = true

section Loop

variable (api : FiberApi) (inFiber : Bool) (startTs : Timespec) (budgetUs : Int)

/-- The loop: the queue, what was sent and how it has ended; none as long as it goes on. -/
def pollLoop (queue : List Bytes) : List Reading → Option (List Bytes × List Bytes × Ending)
  | [] => none
  | reading :: rest =>
    let round := reading.timed startTs
    let (queue, sent) := round.run queue
    if round.inactive then some (queue, sent, .inactive)
    else if budgetUs ≤ round.elapsed then
      some (queue, sent, .budget round.elapsed
        (quicproYieldIfNeeded api inFiber (round.elapsed - budgetUs)))
    else (pollLoop queue rest).map fun (queue, more, ending) => (queue, sent ++ more, ending)

/-- `quicpro_poll`: the session, the packets that were sent and how the loop has ended; none if the
    call does not return. -/
def quicproPoll (session : TicketSession) (readings : List Reading) :
    Option (TicketSession × List Bytes × Ending) := do
  let conn ← session.conn
  let (queue, sent, ending) ← pollLoop api inFiber startTs budgetUs conn.queue readings
  let length := quicheConnGetTlsTicket ⟨queue⟩ session.ticket.bytes maxTicketSize
  pure ({ session with
    conn := some ⟨queue⟩
    ticket := session.ticket.setLength length (Nat.zero_le _) }, sent, ending)

end Loop

variable (api : FiberApi) (inFiber : Bool) {startTs : Timespec} {budgetUs : Int}

/-! ### What the loop does -/

/-- Up to the Fiber, the loop is that over the rounds. -/
theorem pollLoop_map (queue : List Bytes) (readings : List Reading) :
    (pollLoop api inFiber startTs budgetUs queue readings).map
        (fun (queue, sent, _) => (queue, sent)) =
      pollRounds budgetUs queue (readings.map (Reading.timed startTs)) := by
  induction readings generalizing queue with
  | nil => rfl
  | cons reading rest ih =>
    rw [pollLoop, List.map_cons, pollRounds]
    generalize (reading.timed startTs).run queue = ran
    obtain ⟨queue, sent⟩ := ran
    dsimp only
    cases hinactive : (reading.timed startTs).inactive with
    | true => simp [Round.isLast, hinactive]
    | false =>
      by_cases hbudget : budgetUs ≤ (reading.timed startTs).elapsed
      · simp [Round.isLast, hinactive, hbudget]
      · rw [← ih queue]
        simp [Round.isLast, hinactive, hbudget, Function.comp_def]

/-- Up to the Fiber, the call is the one that the session tickets are about. -/
theorem quicproPoll_map (session : TicketSession) (readings : List Reading) :
    (quicproPoll api inFiber startTs budgetUs session readings).map
        (fun (session, sent, _) => (session, sent)) =
      SessionTickets.quicproPoll session budgetUs (readings.map (Reading.timed startTs)) := by
  rw [quicproPoll, SessionTickets.quicproPoll]
  cases session.conn with
  | none => rfl
  | some conn =>
    simp only [Option.bind_eq_bind, Option.bind_some, ← pollLoop_map api inFiber]
    cases pollLoop api inFiber startTs budgetUs conn.queue readings with
    | none => rfl
    | some result => rfl

variable {api : FiberApi} {inFiber : Bool}

/-- The loop ends with the first reading that is the last one, and a loop that has used up its
    budget has called `quicpro_yield_if_needed` with the excess. -/
theorem pollLoop_ending {queue final sent : List Bytes} {readings : List Reading}
    {ending : Ending}
    (hends : pollLoop api inFiber startTs budgetUs queue readings = some (final, sent, ending)) :
    ∃ last, readings.find? (fun reading => (reading.timed startTs).isLast budgetUs) = some last ∧
      ending =
        if last.round.inactive then .inactive
        else .budget (elapsedUs startTs last.nowTs)
          (quicproYieldIfNeeded api inFiber (elapsedUs startTs last.nowTs - budgetUs)) := by
  induction readings generalizing queue sent with
  | nil => cases hends
  | cons reading rest ih =>
    rw [pollLoop] at hends
    generalize (reading.timed startTs).run queue = ran at hends
    obtain ⟨left, first⟩ := ran
    dsimp only at hends
    split at hends
    · next hinactive =>
        cases hends
        refine ⟨reading, List.find?_cons_of_pos (by simp [Round.isLast, hinactive]), ?_⟩
        exact (if_pos hinactive).symm
    · next hactive =>
        split at hends
        · next hbudget =>
            cases hends
            refine ⟨reading, List.find?_cons_of_pos (by simp [Round.isLast, hbudget]), ?_⟩
            exact (if_neg hactive).symm
        · next hleft =>
            obtain ⟨⟨left', more, ending'⟩, hrest, hsame⟩ := Option.map_eq_some_iff.mp hends
            cases hsame
            obtain ⟨last, hlast, hending⟩ := ih hrest
            have hnot : (reading.timed startTs).isLast budgetUs = false := by
              simp [Round.isLast, hactive, hleft]
            refine ⟨last, ?_, hending⟩
            rw [List.find?_cons, hnot]
            exact hlast

theorem quicproYieldIfNeeded_eq_true {excess : Int} :
    quicproYieldIfNeeded api inFiber excess = true ↔
      api = .php84 ∧ inFiber = true ∧ excess ≤ 0 := by
  unfold quicproYieldIfNeeded
  cases api with
  | php84 => simp [FiberApi.isActive, FiberApi.suspends, and_comm]
  | php81 => simp [FiberApi.suspends]
  | unsupported => simp [FiberApi.suspends]

/-- **The busy poll yields** if and only if the reading that ends it finds the connection inactive,
    or PHP has a way to suspend the Fiber and the time that has elapsed at this reading is the
    budget, to the microsecond: for every budget, every reading of the clock and every call in a
    Fiber. -/
theorem yields_iff (api : FiberApi) (startTs : Timespec) (budgetUs : Int)
    (session final : TicketSession) (readings : List Reading) (sent : List Bytes) (ending : Ending)
    (hreturns : quicproPoll api true startTs budgetUs session readings =
      some (final, sent, ending)) :
    ending.Yields ↔
      ∀ last, readings.find? (fun reading => (reading.timed startTs).isLast budgetUs) = some last →
        last.round.inactive = true ∨
          (api = .php84 ∧ elapsedUs startTs last.nowTs = budgetUs) := by
  simp only [quicproPoll, Option.bind_eq_bind, Option.bind_eq_some_iff, Option.pure_def,
    Option.some.injEq, Prod.mk.injEq] at hreturns
  obtain ⟨conn, -, ⟨queue, packets, ending⟩, hloop, -, -, rfl⟩ := hreturns
  obtain ⟨last, hlast, rfl⟩ := pollLoop_ending hloop
  have hisLast := List.find?_some hlast
  rw [hlast]
  cases hinactive : last.round.inactive with
  | true => simp [Ending.Yields, hinactive]
  | false =>
    have hbudget : budgetUs ≤ elapsedUs startTs last.nowTs := by
      simpa [Round.isLast, Reading.timed, hinactive] using hisLast
    rw [if_neg Bool.false_ne_true, Ending.Yields, quicproYieldIfNeeded_eq_true]
    constructor
    · rintro ⟨hapi, -, hexcess⟩ _ hsame
      cases hsame
      exact Or.inr ⟨hapi, by omega⟩
    · intro hexact
      rcases hexact last rfl with hyes | ⟨hapi, helapsed⟩
      · rw [hinactive] at hyes
        cases hyes
      · exact ⟨hapi, rfl, by omega⟩

/-! ### A budget of four microseconds -/

/-- A round at the end of which the clock has gone on by some nanoseconds. -/
def quietUntil (nsec : Int) : Reading := ⟨idle, ⟨0, nsec⟩⟩

theorem yields_at_budget : ∃ final,
    quicproPoll .php84 true ⟨0, 0⟩ 4 fresh [quietUntil 3000, quietUntil 4000] =
        some (final, [], .budget 4 true) ∧ (Ending.budget 4 true).Yields := by
  refine ⟨_, rfl, (yields_iff .php84 ⟨0, 0⟩ 4 fresh _ [quietUntil 3000, quietUntil 4000] [] _
    rfl).mpr ?_⟩
  intro last hlast
  cases hlast
  exact Or.inr ⟨rfl, rfl⟩

/-- The clock is read one microsecond later, and the call returns without having suspended the
    Fiber. -/
theorem not_suspended_after_budget : ∃ final,
    quicproPoll .php84 true ⟨0, 0⟩ 4 fresh [quietUntil 3000, quietUntil 5000] =
        some (final, [], .budget 5 false) ∧ ¬ (Ending.budget 5 false).Yields :=
  ⟨_, rfl, Bool.false_ne_true⟩

end QuicproAsync.BusyPoll

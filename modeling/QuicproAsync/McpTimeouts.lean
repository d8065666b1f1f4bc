import Mathlib.Algebra.Order.Floor.Ring
import Mathlib.Data.Rat.Floor
import Mathlib.Tactic.Linarith
import Mathlib.Tactic.NormNum
import QuicproAsync.Mcp

/-!
# Timeouts of the MCP client

`mcp_poll_for_response` of `mcp.c` measures the time with `time(NULL) * 1000`, once when it begins
and once at the head of each round. It is a time in milliseconds, but it moves in steps of a second.

What is measured is less than a second away from what has passed (`clock_sub_lt`), and a timeout is
reported when more than `timeout_ms` were measured. With a timeout of whole seconds the next value
that can be measured is a second more, which makes up for the error. With any other timeout the
next whole second may come too soon.

The clock is a real one: its times are elements of an ordered field with a floor.
-/

namespace QuicproAsync.Mcp

open Php Machine

section Clock

variable {α : Type*} [Field α] [LinearOrder α] [FloorRing α]

/-- `time(NULL)` at a time in milliseconds. -/
def time (now : α) : Int := ⌊now / 1000⌋

/-- `time(NULL) * 1000`. -/
def clock (now : α) : Int := time now * 1000

variable [IsStrictOrderedRing α] {start now : α}

theorem clock_le (now : α) : (clock now : α) ≤ now := by
  have hfloor : (time now : α) ≤ now / 1000 := Int.floor_le (now / 1000)
  rw [clock, Int.cast_mul]
  push_cast
  linarith

theorem lt_clock_add (now : α) : now < clock now + 1000 := by
  have hfloor : now / 1000 < time now + 1 := Int.lt_floor_add_one (now / 1000)
  rw [clock, Int.cast_mul]
  push_cast
  linarith

/-- What is measured is less than a second more than what has passed. -/
theorem clock_sub_lt (start now : α) :
    ((clock now - clock start : Int) : α) < now - start + 1000 := by
  have hstart := lt_clock_add start
  have hnow := clock_le now
  rw [Int.cast_sub]
  linarith

end Clock

/-! ### Runs in real time -/

/-- What happens in the loop, with the real time of each check. -/
inductive Happening (α : Type*) where
  | check (now : α)
  | event (streamId : Nat) (event : H3Event) (arrived : Bytes)
  | noEvent (isClosed : Bool)

def Happening.checkTime {α : Type*} : Happening α → Option α
  | .check now => some now
  | _ => none

def checkTimes {α : Type*} (happenings : List (Happening α)) : List α :=
  happenings.filterMap Happening.checkTime

section Runs

variable {α : Type*} [Field α] [LinearOrder α] [FloorRing α]

/-- What the calls return. -/
def Happening.answer : Happening α → Answer
  | .check now => .time (clock now)
  | .event eventStream h3Event arrived => .event eventStream h3Event arrived
  | .noEvent isClosed => .noEvent isClosed

/-- `mcp_poll_for_response`, begun at a time. -/
def pollFrom (streamId : Nat) (timeoutMs : Int) (start : α) (happenings : List (Happening α)) :
    Option Poll :=
  after (mcpPollForResponse streamId timeoutMs (clock start)) .initial
    (happenings.map Happening.answer)

variable (α) in
/-- **A timeout is never early**: when it is reported, at least that time has passed between the
    beginning and the last check. -/
def NeverEarly (timeoutMs : Int) : Prop :=
  ∀ (streamId : Nat) (start : α) (happenings : List (Happening α)) (poll : Poll),
    (start :: checkTimes happenings).Pairwise (· < ·) →
    pollFrom streamId timeoutMs start happenings = some poll →
    poll.control = .failure (timedOut timeoutMs streamId) →
    ∃ now ∈ (checkTimes happenings).getLast?, (timeoutMs : α) ≤ now - start

end Runs

/-! ### Reports of a timeout -/

section Reports

variable {streamId : Nat} {timeoutMs startTime : Int} {poll next : Poll} {answer : Answer}

theorem recvFailed_ne_timedOut : recvFailed streamId ≠ timedOut timeoutMs streamId := by
  intro hsame
  have hfirst : some 0x46#8 = some 0x4D#8 := congrArg (fun text : Bytes => text[0]?) hsame
  exact absurd hfirst (by decide)

theorem connectionClosed_ne_timedOut :
    connectionClosed streamId ≠ timedOut timeoutMs streamId := by
  intro hsame
  have hfifth : some 0x63#8 = some 0x72#8 := congrArg (fun text : Bytes => text[4]?) hsame
  exact absurd hfifth (by decide)

/-- Only a check reports a timeout, when more than that has been measured. -/
theorem timedOut_step
    (hstep : mcpPollForResponse streamId timeoutMs startTime poll answer = some next)
    (hreport : next.control = .failure (timedOut timeoutMs streamId)) :
    ∃ now, answer = .time now ∧ timeoutMs < now - startTime := by
  cases answer with
  | time now =>
    obtain ⟨-, hstep⟩ := Option.ite_none_right_eq_some.mp hstep
    split at hstep
    · next hlate => exact ⟨now, rfl, hlate.2⟩
    · cases hstep
      cases hreport
  | event eventStream event arrived =>
    obtain ⟨hpolling, hstep⟩ := Option.ite_none_right_eq_some.mp hstep
    have hkept : poll.control ≠ .failure (timedOut timeoutMs streamId) := by
      rw [hpolling]
      exact Control.noConfusion
    split at hstep
    · cases hstep
      exact absurd hreport hkept
    · cases hstep
      cases event with
      | headers => exact absurd hreport hkept
      | data fails =>
        cases fails with
        | true => exact absurd (Control.failure.inj hreport) recvFailed_ne_timedOut
        | false => exact absurd hreport hkept
      | finished => cases hreport
      | other => exact absurd hreport hkept
  | noEvent isClosed =>
    obtain ⟨-, hstep⟩ := Option.ite_none_right_eq_some.mp hstep
    split at hstep
    · cases hstep
      exact absurd (Control.failure.inj hreport) connectionClosed_ne_timedOut
    · cases hstep
      cases hreport

end Reports

section Results

variable {α : Type*} [Field α] [LinearOrder α] [FloorRing α]
variable {streamId : Nat} {timeoutMs : Int} {start : α} {happenings : List (Happening α)}
variable {poll : Poll}

/-- A run that reports a timeout ends with the check that does. -/
theorem timedOut_run (hrun : pollFrom streamId timeoutMs start happenings = some poll)
    (hreport : poll.control = .failure (timedOut timeoutMs streamId)) :
    ∃ now ∈ (checkTimes happenings).getLast?, timeoutMs < clock now - clock start := by
  rcases List.eq_nil_or_concat happenings with rfl | ⟨earlier, last, rfl⟩
  · cases hrun
    cases hreport
  · rw [pollFrom, List.concat_eq_append, List.map_append] at hrun
    obtain ⟨before, -, hstep⟩ := after_snoc.mp hrun
    obtain ⟨measured, hanswer, hlate⟩ := timedOut_step hstep hreport
    cases last with
    | check now =>
      cases hanswer
      refine ⟨now, ?_, hlate⟩
      rw [checkTimes, List.concat_eq_append, List.filterMap_append]
      exact List.getLast?_concat
    | event eventStream event arrived => cases hanswer
    | noEvent isClosed => cases hanswer

theorem pollFrom_check {now : α} (hpositive : 0 < timeoutMs)
    (hlate : timeoutMs < clock now - clock start) :
    pollFrom streamId timeoutMs start [.check now] =
      some ⟨.failure (timedOut timeoutMs streamId), [], []⟩ := by
  have hstep : mcpPollForResponse streamId timeoutMs (clock start) .initial (.time (clock now)) =
      some ⟨.failure (timedOut timeoutMs streamId), [], []⟩ := by
    have hhead : Poll.initial.control = .head := rfl
    rw [mcpPollForResponse, if_pos hhead, if_pos ⟨hpositive, hlate⟩]
    rfl
  exact after_cons.mpr ⟨_, hstep, rfl⟩

variable [IsStrictOrderedRing α]

/-- The clock has whole seconds, and so has the timeout: a second more than the timeout was
    measured. -/
theorem neverEarly_of_dvd (hseconds : 1000 ∣ timeoutMs) : NeverEarly α timeoutMs := by
  intro streamId start happenings poll _ hrun hreport
  obtain ⟨now, hlast, hlate⟩ := timedOut_run hrun hreport
  have hmeasured : timeoutMs + 1000 ≤ clock now - clock start := by
    unfold clock at hlate ⊢
    omega
  have hcast : (timeoutMs : α) + 1000 ≤ ((clock now - clock start : Int) : α) := by
    exact_mod_cast hmeasured
  have herror := clock_sub_lt start now
  exact ⟨now, hlast, by linarith⟩

/-- The clock at a whole second. -/
theorem clock_second (seconds : Int) : clock ((seconds : α) * 1000) = seconds * 1000 := by
  rw [clock, time, mul_div_assoc, div_self (by norm_num), mul_one, Int.floor_intCast]

/-- Half a millisecond before the first second. -/
theorem clock_half : clock (1999 / 2 : α) = 0 := by
  have hfloor : time (1999 / 2 : α) = 0 := by
    rw [time, Int.floor_eq_zero_iff]
    constructor <;> norm_num
  rw [clock, hfloor, zero_mul]

/-- Any other timeout is reported in the next whole second, and that may be half a millisecond after
    the whole seconds of the timeout. -/
theorem not_neverEarly (hpositive : 0 < timeoutMs) (hseconds : ¬ 1000 ∣ timeoutMs) :
    ¬ NeverEarly α timeoutMs := by
  intro hnever
  have hquotient : 1000 * (timeoutMs / 1000) < timeoutMs := by omega
  have hnext : timeoutMs < (timeoutMs / 1000 + 1) * 1000 := by omega
  generalize timeoutMs / 1000 = seconds at hquotient hnext
  have hnonneg : 0 ≤ seconds := by omega
  have hstart : (1999 / 2 : α) < ((seconds + 1 : Int) : α) * 1000 := by
    have hcast : (0 : α) ≤ seconds := by exact_mod_cast hnonneg
    push_cast
    linarith
  have hlate : timeoutMs < clock (((seconds + 1 : Int) : α) * 1000) - clock (1999 / 2 : α) := by
    rw [clock_second, clock_half]
    omega
  obtain ⟨now, hlast, hpassed⟩ := hnever 0 (1999 / 2) [.check (((seconds + 1 : Int) : α) * 1000)] _
    (List.pairwise_pair.mpr hstart) (pollFrom_check hpositive hlate) rfl
  have hnow : ((seconds + 1 : Int) : α) * 1000 = now := Option.some.inj hlast
  rw [← hnow] at hpassed
  have hcast : 1000 * (seconds : α) + 1 ≤ timeoutMs := by exact_mod_cast hquotient
  push_cast at hpassed
  linarith

variable (α) in
/-- **A timeout is never early** if and only if it has whole seconds: for every positive timeout. -/
theorem never_early_iff (timeoutMs : Int) (hpositive : 0 < timeoutMs) :
    NeverEarly α timeoutMs ↔ 1000 ∣ timeoutMs := by
  constructor
  · intro hnever
    by_contra hseconds
    exact not_neverEarly hpositive hseconds hnever
  · exact neverEarly_of_dvd

end Results

/-- The timeout of a request without options. -/
theorem never_early_default : NeverEarly ℚ (requestTimeout shortRequest) :=
  (never_early_iff ℚ 30000 (by decide)).mpr (by decide)

/-- A timeout of one and a half seconds is reported after 1001 milliseconds: the loop begins just
    before one second and checks just before two, and at two. -/
theorem reported_early :
    pollFrom 0 1500 (999 : ℚ) [.check 1999, .noEvent false, .check 2000] =
        some ⟨.failure (timedOut 1500 0), [], []⟩ ∧
      (2000 - 999 : ℚ) < 1500 ∧ ¬ NeverEarly ℚ 1500 := by
  have hrun : pollFrom 0 1500 (999 : ℚ) [.check 1999, .noEvent false, .check 2000] =
      some ⟨.failure (timedOut 1500 0), [], []⟩ := by
    have hstart : clock (999 : ℚ) = 0 := by decide +kernel
    have hfirst : clock (1999 : ℚ) = 1000 := by decide +kernel
    have hsecond : clock (2000 : ℚ) = 2000 := by decide +kernel
    simp only [pollFrom, List.map, Happening.answer, hstart, hfirst, hsecond]
    rfl
  refine ⟨hrun, by norm_num, fun hnever => ?_⟩
  have hchecks : checkTimes [.check (1999 : ℚ), .noEvent false, .check 2000] = [1999, 2000] := rfl
  obtain ⟨now, hlast, hpassed⟩ := hnever 0 999 _ _ (by rw [hchecks]; decide +kernel) hrun rfl
  rw [hchecks] at hlast
  cases hlast
  norm_num at hpassed

end QuicproAsync.Mcp

import QuicproAsync.ClusterSafety
import QuicproAsync.SlidingWindow

/-!
# The restart limit

Each slot counts its restarts in `restart_count` and keeps the time of the last exit in
`last_restart_time`; the count starts again when that time is more than the interval ago.
On a clock that never goes back the count bounds the restarts within the interval before
the last one, so no interval ever holds more restarts of a slot than the limit allows.

A restart is dated by the clock reading it is decided on, which is the value the code
stores in `last_restart_time`.
-/

namespace QuicproAsync.Cluster

open Machine Processes SlidingWindow

variable {n : Nat} {options : Options} {state next : State n} {event : Event}
  {kill : Option Kill} {worker : Fin n} {times readings more : List Int}

/-- The time of the restart of this slot that the step completes, if it completes one. -/
def restartSeen (worker : Fin n) (state : State n) : Event → Option Int
  | .forked _ _ =>
    if state.control = .restart worker then some (state.pool worker).lastRestartTime else none
  | _ => none

/-- The times of the restarts of a slot in a run, in order. -/
def restarts (options : Options) (worker : Fin n) (start : State n) (events : List Event) :
    List Int := observed (step options) (restartSeen worker) start events

/-- The clock reading that comes with an event. -/
def Event.reading : Event → Option Int
  | .forked _ now => some now
  | .time now => some now
  | _ => none

def clockReadings (events : List Event) : List Int := events.filterMap Event.reading

/-! ### What a step does to one slot -/

/-- How a step can change one slot: its counters move only where its worker is forked for the
    first time, and where an exit of its worker is counted. -/
inductive SlotTurn (options : Options) (worker : Fin n) (state : State n) :
    Event → State n → Prop where
  | paused {signo : Signal} {next : State n} (hpool : next.pool = state.pool)
      (hcontrol : next.control = state.control) :
      SlotTurn options worker state (.signal signo) next
  | kept {event : Event} {next : State n} (hbefore : state.control.handled ≠ some worker)
      (hboot : ∀ i, next.control = .boot i → ∃ j, state.control = .boot j)
      (hrestart : next.control ≠ .restart worker)
      (hsame : (next.pool worker).pid ≠ 0 → (state.pool worker).pid ≠ 0 ∧
        (next.pool worker).restartCount = (state.pool worker).restartCount ∧
        (next.pool worker).lastRestartTime = (state.pool worker).lastRestartTime) :
      SlotTurn options worker state event next
  | started {i : Nat} {pid now : Int} {next : State n} (hcontrol : state.control = .boot i)
      (hslot : next.pool worker = ⟨pid, 0, now, false⟩) (hnext : next.control = .boot (i + 1)) :
      SlotTurn options worker state (.forked pid now) next
  | emptied {event : Event} {next : State n} (hforked : ∀ pid now, event ≠ .forked pid now)
      (hempty : (next.pool worker).pid = 0) (hnext : next.control = .head) :
      SlotTurn options worker state event next
  | granted {now : Int} {info : WorkerInfo} {next : State n}
      (hcontrol : state.control = .exited worker)
      (hcount : countExit options (state.pool worker) now = some info)
      (hwithin : withinLimit options info = true) (hslot : next.pool worker = info)
      (hnext : next.control = .restart worker) :
      SlotTurn options worker state (.time now) next
  | restarted {pid now : Int} {next : State n} (hcontrol : state.control = .restart worker)
      (hslot : next.pool worker = { state.pool worker with pid := pid })
      (hnext : next.control = .head) : SlotTurn options worker state (.forked pid now) next

/-- A step that does not touch the slot. -/
theorem SlotTurn.frame (hbefore : state.control.handled ≠ some worker)
    (hboot : ∀ i, next.control = .boot i → ∃ j, state.control = .boot j)
    (hrestart : next.control ≠ .restart worker) (hpool : next.pool worker = state.pool worker) :
    SlotTurn options worker state event next := by
  refine .kept hbefore hboot hrestart ?_
  intro hpresent
  rw [hpool] at hpresent ⊢
  exact ⟨hpresent, rfl, rfl⟩

/-- Handling the exit of one slot is not about the others. -/
theorem SlotTurn.other {slot : Fin n} (hother : worker ≠ slot) {info : WorkerInfo}
    (hhandled : state.control.handled = some slot)
    (hpool : next.pool = Function.update state.pool slot info)
    (hnext : next.control = .head ∨ next.control = .restart slot) :
    SlotTurn options worker state event next := by
  refine .frame ?_ ?_ ?_ (by rw [hpool, Function.update_of_ne hother])
  · intro hsame
    rw [hhandled] at hsame
    exact hother (Option.some.inj hsame).symm
  · intro i hboot
    rcases hnext with hhead | hrestart
    · rw [hhead] at hboot
      cases hboot
    · rw [hrestart] at hboot
      cases hboot
  · intro hcontrol
    rcases hnext with hhead | hrestart
    · rw [hhead] at hcontrol
      cases hcontrol
    · rw [hrestart] at hcontrol
      exact hother (Control.restart.inj hcontrol).symm

theorem SlotTurn.signalled {loop : Sweep} {i : Nat} (hcontrol : state.control = .sweep loop i)
    (hi : i < n) : SlotTurn options worker state event
      { (signalSlot loop state ⟨i, hi⟩).1 with control := .sweep loop (i + 1) } := by
  refine .kept (hcontrol ▸ nofun) nofun nofun ?_
  intro hpresent
  rw [signalSlot_pid] at hpresent
  refine ⟨hpresent, ?_⟩
  by_cases hslot : 0 < (state.pool ⟨i, hi⟩).pid
  · rw [signalSlot_present hslot]
    dsimp only [State.setSlot]
    rcases eq_or_ne worker ⟨i, hi⟩ with rfl | hother
    · rw [Function.update_self]
      exact ⟨rfl, rfl⟩
    · rw [Function.update_of_ne hother]
      exact ⟨rfl, rfl⟩
  · rw [signalSlot_empty hslot]
    exact ⟨rfl, rfl⟩

theorem Turn.slot (hturn : Turn options state event next kill) (worker : Fin n) :
    SlotTurn options worker state event next := by
  cases hturn with
  | signal signo => cases signo <;> exact .paused rfl rfl
  | moved hmoves =>
    refine .frame ?_ ?_ ?_ rfl
    · rw [hmoves.idle_before]
      nofun
    · cases hmoves <;> nofun
    · cases hmoves <;> nofun
  | @started i pid now hcontrol hi hfresh =>
    rcases eq_or_ne worker ⟨i, hi⟩ with rfl | hother
    · exact .started hcontrol (Function.update_self _ _ _) rfl
    · exact .frame (hcontrol ▸ nofun) (fun _ _ => ⟨i, hcontrol⟩) nofun
        (Function.update_of_ne hother _ _)
  | signalled hcontrol hi hstop => exact .signalled hcontrol hi
  | @swept loop i hcontrol hstop =>
    have hbefore : state.control.handled ≠ some worker := hcontrol ▸ nofun
    cases loop <;> exact .frame hbefore nofun nofun rfl
  | stranger hcontrol hpid hfind => exact .frame (hcontrol ▸ nofun) nofun nofun rfl
  | exited hcontrol hpid hfind => exact .frame (hcontrol ▸ nofun) nofun nofun rfl
  | @dropped slot hcontrol hwanted =>
    rcases eq_or_ne worker slot with rfl | hother
    · exact .emptied nofun (by simp [State.emptySlot, State.setSlot]) rfl
    · exact .other hother (congrArg Control.handled hcontrol) rfl (Or.inl rfl)
  | @limited slot now info hcontrol hwanted hcount hwithin =>
    rcases eq_or_ne worker slot with rfl | hother
    · exact .emptied nofun (by simp [State.setSlot]) rfl
    · exact .other hother (congrArg Control.handled hcontrol) rfl (Or.inl rfl)
  | @granted slot now info hcontrol hwanted hcount hwithin =>
    rcases eq_or_ne worker slot with rfl | hother
    · exact .granted hcontrol hcount hwithin (Function.update_self _ _ _) rfl
    · exact .other hother (congrArg Control.handled hcontrol) rfl (Or.inr rfl)
  | @restarted slot pid now hcontrol hfresh =>
    rcases eq_or_ne worker slot with rfl | hother
    · exact .restarted hcontrol (Function.update_self _ _ _) rfl
    · exact .other hother (congrArg Control.handled hcontrol) rfl (Or.inl rfl)
  | @restartFailed slot hcontrol =>
    rcases eq_or_ne worker slot with rfl | hother
    · exact .emptied nofun (by simp [State.emptySlot, State.setSlot]) rfl
    · exact .other hother (congrArg Control.handled hcontrol) rfl (Or.inl rfl)
  | graceReaped hcontrol hpid hpool hnext =>
    refine .kept (hcontrol ▸ nofun) ?_ ?_ ?_
    · rcases hnext with rfl | rfl <;> nofun
    · rcases hnext with rfl | rfl <;> nofun
    · intro hpresent
      dsimp only at hpresent ⊢
      rw [hpool] at hpresent ⊢
      split at hpresent
      · exact absurd rfl hpresent
      · rename_i hkept
        rw [if_neg hkept]
        exact ⟨hpresent, rfl, rfl⟩

/-! ### The counters of a slot -/

/-- What the counters of a slot mean, given the restarts and the clock readings so far. -/
structure Counted (options : Options) (worker : Fin n) (times readings : List Int)
    (state : State n) : Prop where
  limited : Limited options.restartIntervalSec options.maxRestartsPerWorker times
  booting : ∀ i, state.control = .boot i → times = []
  counts : (state.pool worker).pid ≠ 0 → state.control ≠ .restart worker →
    Counts options.restartIntervalSec times (state.pool worker).lastRestartTime
      (state.pool worker).restartCount
  granted : state.control = .restart worker →
    Counts options.restartIntervalSec (times ++ [(state.pool worker).lastRestartTime])
      (state.pool worker).lastRestartTime (state.pool worker).restartCount
  bounded : (state.pool worker).pid ≠ 0 →
    (state.pool worker).restartCount ≤ options.maxRestartsPerWorker
  read : (state.pool worker).pid ≠ 0 → (state.pool worker).lastRestartTime ∈ readings

/-- A step after which the slot is empty or has the counters it had. -/
theorem Counted.keep (hcounted : Counted options worker times readings state)
    (hboot : ∀ i, next.control = .boot i → ∃ j, state.control = .boot j)
    (hrestart : next.control ≠ .restart worker)
    (hsame : (next.pool worker).pid ≠ 0 → state.control ≠ .restart worker ∧
      (state.pool worker).pid ≠ 0 ∧
      (next.pool worker).restartCount = (state.pool worker).restartCount ∧
      (next.pool worker).lastRestartTime = (state.pool worker).lastRestartTime) :
    Counted options worker times (readings ++ more) next := by
  refine ⟨hcounted.limited, ?_, ?_, fun hcontrol => absurd hcontrol hrestart, ?_, ?_⟩
  · intro i hcontrol
    obtain ⟨j, hbefore⟩ := hboot i hcontrol
    exact hcounted.booting j hbefore
  · intro hpresent _
    obtain ⟨hbefore, hpid, hcount, hlast⟩ := hsame hpresent
    rw [hcount, hlast]
    exact hcounted.counts hpid hbefore
  · intro hpresent
    obtain ⟨-, hpid, hcount, -⟩ := hsame hpresent
    rw [hcount]
    exact hcounted.bounded hpid
  · intro hpresent
    obtain ⟨-, hpid, -, hlast⟩ := hsame hpresent
    rw [hlast]
    exact List.mem_append_left _ (hcounted.read hpid)

theorem Counted.paused (hcounted : Counted options worker times readings state)
    (hpool : next.pool = state.pool) (hcontrol : next.control = state.control) :
    Counted options worker times readings next := by
  constructor
  · exact hcounted.limited
  · rw [hcontrol]
    exact hcounted.booting
  · rw [hcontrol, hpool]
    exact hcounted.counts
  · rw [hcontrol, hpool]
    exact hcounted.granted
  · rw [hpool]
    exact hcounted.bounded
  · rw [hpool]
    exact hcounted.read

theorem Counted.started (hcounted : Counted options worker times readings state)
    (hlimit : 0 ≤ options.maxRestartsPerWorker) {i : Nat} {pid now : Int}
    (hcontrol : state.control = .boot i) (hslot : next.pool worker = ⟨pid, 0, now, false⟩)
    (hnext : next.control = .boot (i + 1)) :
    Counted options worker times (readings ++ [now]) next := by
  have hrestart : next.control ≠ .restart worker := hnext ▸ nofun
  have htimes := hcounted.booting i hcontrol
  refine ⟨hcounted.limited, fun _ _ => htimes, ?_, fun hgranted => absurd hgranted hrestart,
    ?_, ?_⟩
  · intro _ _
    rw [hslot, htimes]
    exact counts_nil
  · intro _
    rw [hslot]
    exact hlimit
  · intro _
    rw [hslot]
    exact List.mem_append_right _ (List.mem_singleton.mpr rfl)

theorem withinLimit_iff {info : WorkerInfo} (hlimit : 0 ≤ options.maxRestartsPerWorker) :
    withinLimit options info = true ↔ info.restartCount ≤ options.maxRestartsPerWorker := by
  have hlimited : ¬ options.maxRestartsPerWorker < 0 := Int.not_lt.mpr hlimit
  simp [withinLimit, hlimited]

/-- The attempt is counted and found to be within the limit. -/
theorem Counted.granted_slot (hcounted : Counted options worker times readings state)
    (hlimit : 0 ≤ options.maxRestartsPerWorker) (hpresent : (state.pool worker).pid ≠ 0)
    (hcontrol : state.control = .exited worker) {now : Int} {info : WorkerInfo}
    (hlater : (state.pool worker).lastRestartTime ≤ now)
    (hcount : countExit options (state.pool worker) now = some info)
    (hwithin : withinLimit options info = true) (hslot : next.pool worker = info)
    (hnext : next.control = .restart worker) :
    Counted options worker times (readings ++ [now]) next := by
  have hbefore : state.control ≠ .restart worker := hcontrol ▸ nofun
  have hinfo := countExit_eq hcount
  refine ⟨hcounted.limited, ?_, fun _ hother => absurd hnext hother, ?_, ?_, ?_⟩
  · intro i hboot
    rw [hnext] at hboot
    cases hboot
  · intro _
    rw [hslot, hinfo]
    exact (hcounted.counts hpresent hbefore).tick hlater
  · intro _
    rw [hslot]
    exact (withinLimit_iff hlimit).mp hwithin
  · intro _
    rw [hslot, hinfo]
    exact List.mem_append_right _ (List.mem_singleton.mpr rfl)

/-- The restart is made. -/
theorem Counted.restarted_slot (hcounted : Counted options worker times readings state)
    (hpresent : (state.pool worker).pid ≠ 0) (hcontrol : state.control = .restart worker)
    {pid now : Int} (hslot : next.pool worker = { state.pool worker with pid := pid })
    (hnext : next.control = .head) :
    Counted options worker (times ++ [(state.pool worker).lastRestartTime])
      (readings ++ [now]) next := by
  have hcounts := hcounted.granted hcontrol
  have hbound := hcounted.bounded hpresent
  refine ⟨hcounted.limited.tick hcounts hbound, ?_, ?_, ?_, ?_, ?_⟩
  · intro i hboot
    rw [hnext] at hboot
    cases hboot
  · intro _ _
    rw [hslot]
    exact hcounts
  · intro hrestart
    rw [hnext] at hrestart
    cases hrestart
  · intro _
    rw [hslot]
    exact hbound
  · intro _
    rw [hslot]
    exact List.mem_append_left _ (hcounted.read hpresent)

theorem restartSeen_of_ne (hcontrol : state.control ≠ .restart worker) :
    restartSeen worker state event = none := by
  cases event with
  | forked pid now => exact if_neg hcontrol
  | _ => rfl

theorem restartSeen_of_not_forked (hforked : ∀ pid now, event ≠ .forked pid now) :
    restartSeen worker state event = none := by
  cases event with
  | forked pid now => exact absurd rfl (hforked pid now)
  | _ => rfl

theorem Counted.turn (hcounted : Counted options worker times readings state)
    (hlimit : 0 ≤ options.maxRestartsPerWorker) (hsound : Sound state)
    (hclock : ∀ earlier ∈ readings, ∀ now ∈ event.reading, earlier ≤ now)
    (hturn : SlotTurn options worker state event next) :
    Counted options worker (times ++ (restartSeen worker state event).toList)
      (readings ++ event.reading.toList) next := by
  cases hturn with
  | paused hpool hcontrol =>
    show Counted options worker (times ++ []) (readings ++ []) next
    rw [List.append_nil, List.append_nil]
    exact hcounted.paused hpool hcontrol
  | kept hbefore hboot hrestart hsame =>
    have hcontrol : state.control ≠ .restart worker := by
      intro hcontrol
      exact hbefore (congrArg Control.handled hcontrol)
    rw [restartSeen_of_ne hcontrol, Option.toList_none, List.append_nil]
    exact hcounted.keep hboot hrestart fun hpresent => ⟨hcontrol, hsame hpresent⟩
  | started hcontrol hslot hnext =>
    rw [restartSeen_of_ne (hcontrol ▸ nofun), Option.toList_none, List.append_nil]
    exact hcounted.started hlimit hcontrol hslot hnext
  | emptied hforked hempty hnext =>
    rw [restartSeen_of_not_forked hforked, Option.toList_none, List.append_nil]
    exact hcounted.keep (hnext ▸ nofun) (hnext ▸ nofun) fun hpresent => absurd hempty hpresent
  | @granted now info _ hcontrol hcount hwithin hslot hnext =>
    have hpresent := (hsound.handled worker (congrArg Control.handled hcontrol)).1
    have hlater := hclock _ (hcounted.read hpresent) now rfl
    have hseen : restartSeen worker state (.time now) = none := rfl
    rw [hseen, Option.toList_none, List.append_nil]
    exact hcounted.granted_slot hlimit hpresent hcontrol hlater hcount hwithin hslot hnext
  | @restarted pid now _ hcontrol hslot hnext =>
    have hpresent := (hsound.handled worker (congrArg Control.handled hcontrol)).1
    have hseen : restartSeen worker state (.forked pid now) =
        some (state.pool worker).lastRestartTime := if_pos hcontrol
    rw [hseen]
    exact hcounted.restarted_slot hpresent hcontrol hslot hnext

/-! ### Whole runs -/

theorem clockReadings_append (events more : List Event) :
    clockReadings (events ++ more) = clockReadings events ++ clockReadings more :=
  List.filterMap_append

theorem clockReadings_snoc (events : List Event) (event : Event) :
    clockReadings (events ++ [event]) = clockReadings events ++ event.reading.toList := by
  rw [clockReadings_append]
  cases event <;> rfl

theorem Counted.start {shutdown reload : Bool} {children : Children}
    (hlimit : 0 ≤ options.maxRestartsPerWorker) (worker : Fin n) :
    Counted options worker [] [] (start n shutdown reload children) :=
  ⟨limited_nil hlimit, fun _ _ => rfl, fun hpresent => absurd rfl hpresent, nofun,
    fun hpresent => absurd rfl hpresent, fun hpresent => absurd rfl hpresent⟩

theorem counted_after {shutdown reload : Bool} {children : Children} {events : List Event}
    (hlimit : 0 ≤ options.maxRestartsPerWorker) (hinherited : Inherited children)
    (hafter : after (step options) (start n shutdown reload children) events = some state)
    (hclock : (clockReadings events).Pairwise (· ≤ ·)) (worker : Fin n) :
    Counted options worker
      (restarts options worker (start n shutdown reload children) events)
      (clockReadings events) state := by
  refine invariant (P := fun events state => (clockReadings events).Pairwise (· ≤ ·) →
    Counted options worker (restarts options worker (start n shutdown reload children) events)
      (clockReadings events) state) (fun _ => Counted.start hlimit worker) ?_ hafter hclock
  intro events state event next hbefore hcounted hstep hclock
  obtain ⟨kill, hturn⟩ := step_cases hstep
  rw [clockReadings_snoc, List.pairwise_append] at hclock
  rw [clockReadings_snoc, restarts, observed_snoc event hbefore]
  refine (hcounted hclock.1).turn hlimit (sound_after hinherited hbefore) ?_ (hturn.slot worker)
  intro earlier hearlier now hnow
  exact hclock.2.2 earlier hearlier now (Option.mem_toList.mpr hnow)

/-- In every run on a clock that never goes back, any selection of the restarts of a slot whose
    first and last lie at most the restart interval apart has at most as many elements as the
    limit allows. -/
theorem restarts_within_limit (options : Options) (hlimit : 0 ≤ options.maxRestartsPerWorker)
    (shutdown reload : Bool) (children : Children) (hinherited : Inherited children)
    (events : List Event) (state : State n)
    (hafter : after (step options) (start n shutdown reload children) events = some state)
    (hclock : (clockReadings events).Pairwise (· ≤ ·)) (worker : Fin n) (window : List Int)
    (hwindow : window.Sublist (restarts options worker (start n shutdown reload children) events))
    (hspan : Within options.restartIntervalSec window) :
    (window.length : Int) ≤ options.maxRestartsPerWorker :=
  (counted_after hlimit hinherited hafter hclock worker).limited window hwindow hspan

/-- One restart is allowed: the exit at time 5 is answered, the one at time 10 is not. -/
def limitedEvents : List Event :=
  [.forked 100 0, .next, .next, .next, .waited 100, .time 5, .forked 101 5, .next, .next,
    .waited 101, .time 10]

theorem restarts_within_limit_one :
    restarts { Options.defaults with maxRestartsPerWorker := 1 } (0 : Fin 1)
        (start 1 false false .none) limitedEvents = [5] ∧ ([5].length : Int) ≤ 1 := by
  obtain ⟨state, hafter⟩ : ∃ state : State 1,
      after (step { Options.defaults with maxRestartsPerWorker := 1 })
        (start 1 false false .none) limitedEvents = some state := ⟨_, rfl⟩
  refine ⟨rfl, ?_⟩
  exact restarts_within_limit { Options.defaults with maxRestartsPerWorker := 1 } (by decide)
    false false .none nofun limitedEvents state hafter (by decide) 0 [5]
    (List.Sublist.refl [5]) (by simp [Within, Options.defaults])

end QuicproAsync.Cluster

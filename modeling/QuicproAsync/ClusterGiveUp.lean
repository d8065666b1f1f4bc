import QuicproAsync.ClusterCalls
import QuicproAsync.ClusterRestart

/-!
# When a slot is given up

The header documents `max_restarts_per_worker` as a number of restarts within
`restart_interval_sec`. The supervisor counts differently: an exit more than the interval
after the previous one resets the count, any other exit adds to it. Exits that keep a pace
of just the interval are therefore all counted, however long they go on, and the slot is
given up although no interval ever held more than two of them.

An exit is dated by the clock reading on which it is handled.
-/

namespace QuicproAsync.Cluster

open Machine Processes SlidingWindow

variable {n : Nat} {options : Options} {state next : State n} {event : Event} {kill : Option Kill}
  {worker : Fin n} {times : List Int} {children : Children} {events : List Event}

/-- The time of the exit of this slot's worker that the step handles. -/
def exitSeen (worker : Fin n) (state : State n) : Event → Option Int
  | .time now => if state.control = .exited worker then some now else none
  | _ => none

/-- The times of the exits of a slot's worker in a run, in order. -/
def exits (options : Options) (worker : Fin n) (start : State n) (events : List Event) :
    List Int := observed (step options) (exitSeen worker) start events

/-- No shutdown and no reload is requested, and no fork fails. -/
def Undisturbed (events : List Event) : Prop :=
  ∀ event ∈ events, ¬ event.IsShutdown ∧ event ≠ .signal .sighup ∧ event ≠ .forkFailed

/-- The exit of the slot's worker is handled and the slot is left empty, by a supervisor that
    restarts workers. -/
structure GivesUp (options : Options) (worker : Fin n) (state : State n) (event : Event)
    (next : State n) : Prop where
  restarts : options.restartCrashedWorkers = true
  handled : state.control.handled = some worker
  steps : step options state event = some next
  finished : next.control = .head
  empty : (next.pool worker).pid = 0

/-! ### What the count stands for -/

/-- The count of a slot is the length of the burst of exits that the last one belongs to. -/
structure Paced (options : Options) (worker : Fin n) (times : List Int) (state : State n) :
    Prop where
  booting : ∀ i, state.control = .boot i → times = []
  burst : (state.pool worker).pid ≠ 0 →
    Burst options.restartIntervalSec times (state.pool worker).lastRestartTime
      (state.pool worker).restartCount

theorem exitSeen_of_ne (hcontrol : state.control ≠ .exited worker) :
    exitSeen worker state event = none := by
  cases event with
  | time now => exact if_neg hcontrol
  | _ => rfl

variable {now : Int}

theorem countExit_burst {info counted : WorkerInfo}
    (hburst : Burst options.restartIntervalSec times info.lastRestartTime info.restartCount)
    (hcount : countExit options info now = some counted) :
    Burst options.restartIntervalSec (times ++ [now]) counted.lastRestartTime
      counted.restartCount := by
  rw [countExit_eq hcount]
  exact hburst.tick now

theorem countExit_le {info counted : WorkerInfo}
    (hcount : countExit options info now = some counted) : counted.restartCount ≤ intMax := by
  unfold countExit at hcount
  split at hcount
  · rename_i hbelow
    cases hcount
    exact hbelow
  · cases hcount

theorem Paced.turn (hpaced : Paced options worker times state) (hsound : Sound state)
    (hturn : SlotTurn options worker state event next) :
    Paced options worker (times ++ (exitSeen worker state event).toList) next := by
  cases hturn with
  | @paused signo _ hpool hcontrol =>
    have hseen : exitSeen worker state (.signal signo) = none := rfl
    rw [hseen, Option.toList_none, List.append_nil]
    refine ⟨?_, ?_⟩
    · rw [hcontrol]
      exact hpaced.booting
    · rw [hpool]
      exact hpaced.burst
  | kept hbefore hboot hrestart hsame =>
    have hcontrol : state.control ≠ .exited worker := by
      intro hcontrol
      exact hbefore (congrArg Control.handled hcontrol)
    rw [exitSeen_of_ne hcontrol, Option.toList_none, List.append_nil]
    refine ⟨?_, ?_⟩
    · intro i hnext
      obtain ⟨j, hearlier⟩ := hboot i hnext
      exact hpaced.booting j hearlier
    · intro hpresent
      obtain ⟨hpid, hcount, hlast⟩ := hsame hpresent
      rw [hcount, hlast]
      exact hpaced.burst hpid
  | @started i pid now _ hcontrol hslot hnext =>
    have hseen : exitSeen worker state (.forked pid now) = none := rfl
    rw [hseen, Option.toList_none, List.append_nil]
    refine ⟨fun _ _ => hpaced.booting i hcontrol, ?_⟩
    intro _
    rw [hslot]
    exact burst_nil
  | emptied hforked hempty hnext =>
    refine ⟨hnext ▸ nofun, ?_⟩
    intro hpresent
    exact absurd hempty hpresent
  | @granted now info _ hcontrol hcount hwithin hslot hnext =>
    have hpresent := (hsound.handled worker (congrArg Control.handled hcontrol)).1
    have hseen : exitSeen worker state (.time now) = some now := if_pos hcontrol
    rw [hseen, Option.toList_some]
    refine ⟨hnext ▸ nofun, ?_⟩
    intro _
    rw [hslot]
    exact countExit_burst (hpaced.burst hpresent) hcount
  | @restarted pid now _ hcontrol hslot hnext =>
    have hpresent := (hsound.handled worker (congrArg Control.handled hcontrol)).1
    have hseen : exitSeen worker state (.forked pid now) = none := rfl
    rw [hseen, Option.toList_none, List.append_nil]
    refine ⟨hnext ▸ nofun, ?_⟩
    intro _
    rw [hslot]
    exact hpaced.burst hpresent

theorem paced_after {shutdown reload : Bool} (hinherited : Inherited children)
    (hafter : after (step options) (start n shutdown reload children) events = some state)
    (worker : Fin n) :
    Paced options worker (exits options worker (start n shutdown reload children) events)
      state := by
  refine invariant (P := fun events state => Paced options worker
    (exits options worker (start n shutdown reload children) events) state) ?_ ?_ hafter
  · exact ⟨fun _ _ => rfl, fun hpresent => absurd rfl hpresent⟩
  · intro events state event next hbefore hpaced hstep
    obtain ⟨kill, hturn⟩ := step_cases hstep
    unfold exits
    rw [observed_snoc event hbefore]
    exact hpaced.turn (sound_after hinherited hbefore) (hturn.slot worker)

/-! ### A slot is given up for the limit alone -/

theorem undisturbed_append {earlier later : List Event} :
    Undisturbed (earlier ++ later) ↔ Undisturbed earlier ∧ Undisturbed later :=
  List.forall_mem_append

theorem undisturbed_snoc :
    Undisturbed (events ++ [event]) ↔ Undisturbed events ∧ ¬ event.IsShutdown ∧
      event ≠ .signal .sighup ∧ event ≠ .forkFailed := by
  rw [undisturbed_append]
  exact and_congr_right fun _ => List.forall_mem_singleton

/-- In an undisturbed run a worker is not marked as exiting, and the supervisor wants to
    restart it. -/
theorem restartWanted_after (hrestart : options.restartCrashedWorkers = true)
    (hinherited : Inherited children)
    (hafter : after (step options) (start n false false children) events = some state)
    (hquiet : Undisturbed events) (worker : Fin n) :
    restartWanted options state worker = true := by
  have hunserved : ¬ Visits (step options) Reloading (start n false false children) events := by
    rintro ⟨earlier, later, visited, rfl, hvisited, hreloading⟩
    refine (no_reload_after hvisited ?_).2 hreloading
    intro event hevent
    exact (hquiet event (List.mem_append_left _ hevent)).2.1
  have hunmarked := (marked_after hinherited hafter).unmarked hunserved worker
  have hrunning := no_shutdown_after hafter fun event hevent => (hquiet event hevent).1
  exact restartWanted_iff.mpr ⟨hrestart, hunmarked, hrunning⟩

theorem GivesUp.limited (hgives : GivesUp options worker state event next)
    (hinherited : Inherited children)
    (hafter : after (step options) (start n false false children) events = some state)
    (hquiet : Undisturbed (events ++ [event])) :
    ∃ now info, event = .time now ∧ state.control = .exited worker ∧
      countExit options (state.pool worker) now = some info ∧
      withinLimit options info = false := by
  obtain ⟨hearlier, -, -, hforks⟩ := undisturbed_snoc.mp hquiet
  obtain ⟨kill, hturn⟩ := step_cases hgives.steps
  rcases hturn.finishes hgives.handled hgives.finished with
    ⟨hcontrol, -, hunwanted | ⟨now, info, hevent, hcount, hlimit⟩⟩ |
      ⟨-, hfailed | ⟨pid, now, -, hpid, hpos⟩⟩
  · rw [restartWanted_after hgives.restarts hinherited hafter hearlier] at hunwanted
    cases hunwanted
  · exact ⟨now, info, hevent, hcontrol, hcount, hlimit⟩
  · exact absurd hfailed hforks
  · rw [hgives.empty] at hpid
    exact absurd hpid (Int.ne_of_lt hpos)

/-- The slot's worker has exited once more than it may be restarted, all within one interval. -/
def ExitedTooOften (options : Options) (times : List Int) : Prop :=
  ∃ window : List Int, window.Sublist times ∧ Within options.restartIntervalSec window ∧
    options.maxRestartsPerWorker + 1 ≤ window.length

/-- The gaps that a full count can span fit into one interval. -/
theorem GivesUp.exitedTooOften (hgives : GivesUp options worker state event next)
    (hlimit : 0 ≤ options.maxRestartsPerWorker) (hinherited : Inherited children)
    (hafter : after (step options) (start n false false children) events = some state)
    (hquiet : Undisturbed (events ++ [event]))
    (hclock : (clockReadings (events ++ [event])).Pairwise (· ≤ ·))
    (hfits : options.maxRestartsPerWorker * options.restartIntervalSec ≤
      options.restartIntervalSec) :
    ExitedTooOften options
      (exits options worker (start n false false children) (events ++ [event])) := by
  obtain ⟨now, info, rfl, hcontrol, hcount, hover⟩ := hgives.limited hinherited hafter hquiet
  have hpresent := ((sound_after hinherited hafter).handled worker hgives.handled).1
  have hburst := (paced_after hinherited hafter worker).burst hpresent
  rw [clockReadings_snoc, List.pairwise_append] at hclock
  have hbounded := (counted_after hlimit hinherited hafter hclock.1 worker).bounded hpresent
  -- The count has passed the limit by this exit, so it is the limit plus one.
  have hfull : info.restartCount = options.maxRestartsPerWorker + 1 := by
    have hexceeded : ¬ info.restartCount ≤ options.maxRestartsPerWorker := by
      rw [← withinLimit_iff hlimit, hover]
      exact Bool.false_ne_true
    have hbefore : countBefore options (state.pool worker) now ≤
        options.maxRestartsPerWorker := by
      unfold countBefore
      split
      · exact hlimit
      · exact hbounded
    rw [countExit_eq hcount] at hexceeded ⊢
    dsimp only at hexceeded ⊢
    omega
  have hseen : exitSeen worker state (.time now) = some now := if_pos hcontrol
  have hnow := countExit_burst hburst hcount
  rw [hfull] at hnow
  obtain ⟨window, hwindow, hwithin, hlength⟩ := hnow.window hfits
  unfold exits
  rw [observed_snoc _ hafter, hseen]
  exact ⟨window, hwindow, hwithin, Int.le_of_eq hlength.symm⟩

/-! ### Exits at the pace of the interval -/

/-- What the kernel answers, or the code running on. -/
theorem undisturbed_of_not_signal (hsignal : ∀ signo, event ≠ .signal signo)
    (hforks : event ≠ .forkFailed) :
    ¬ event.IsShutdown ∧ event ≠ .signal .sighup ∧ event ≠ .forkFailed := by
  refine ⟨?_, hsignal .sighup, hforks⟩
  rintro (hint | hterm)
  · exact hsignal .sigint hint
  · exact hsignal .sigterm hterm

theorem Booting.undisturbed (hbooting : Booting now events) :
    Undisturbed events := by
  intro event hevent
  rcases hbooting event hevent with rfl | ⟨pid, rfl⟩
  · exact undisturbed_of_not_signal nofun nofun
  · exact undisturbed_of_not_signal nofun nofun

theorem Booting.exits (hbooting : Booting now events) (worker : Fin n) (state : State n) :
    exits options worker state events = [] := by
  refine observed_eq_nil ?_ state
  intro event hevent before
  rcases hbooting event hevent with rfl | ⟨pid, rfl⟩
  · rfl
  · rfl

theorem Booting.clockReadings (hbooting : Booting now events) :
    ∀ reading ∈ clockReadings events, reading = now := by
  intro reading hreading
  obtain ⟨event, hevent, hread⟩ := List.mem_filterMap.mp hreading
  rcases hbooting event hevent with rfl | ⟨pid, rfl⟩
  · cases hread
  · exact (Option.some.inj hread).symm

/-- The exits of a worker that lives for `pace` seconds each time. -/
def pacedExits (pace : Int) (count : Nat) : List Int :=
  (List.range count).map fun i : Nat => ((i : Int) + 1) * pace

theorem pacedExits_succ (pace : Int) (count : Nat) :
    pacedExits pace (count + 1) = pacedExits pace count ++ [((count : Int) + 1) * pace] := by
  unfold pacedExits
  rw [List.range_succ, List.map_append, List.map_singleton]

/-- An undisturbed run at whose end the slot holds a worker that has been restarted `count`
    times, always `pace` seconds after it was started. -/
structure PacedRun (options : Options) (children : Children) (worker : Fin n) (pace : Int)
    (count : Nat) (events : List Event) (state : State n) : Prop where
  runs : after (step options) (start n false false children) events = some state
  quiet : Undisturbed events
  ordered : (clockReadings events).Pairwise (· ≤ ·)
  read : ∀ reading ∈ clockReadings events, reading ≤ count * pace
  dated : exits options worker (start n false false children) events = pacedExits pace count
  control : state.control = .head
  shutdown : state.shutdownRequest = false
  reload : state.reloadRequest = false
  present : 0 < (state.pool worker).pid
  counted : (state.pool worker).restartCount = count
  last : (state.pool worker).lastRestartTime = count * pace
  unmarked : (state.pool worker).isExiting = false

/-- Readings that are all the same may follow the earlier ones. -/
theorem ordered_append {earlier later : List Int} (hordered : earlier.Pairwise (· ≤ ·))
    (hbefore : ∀ reading ∈ earlier, reading ≤ now) (hnow : ∀ reading ∈ later, reading = now) :
    (earlier ++ later).Pairwise (· ≤ ·) := by
  refine List.pairwise_append.mpr ⟨hordered, List.pairwise_of_forall_mem_list ?_, ?_⟩
  · intro one hone other hother
    exact Int.le_of_eq ((hnow one hone).trans (hnow other hother).symm)
  · intro one hone other hother
    rw [hnow other hother]
    exact hbefore one hone

theorem pacedRun_zero (options : Options) (children : Children) (worker : Fin n) (pace : Int) :
    ∃ events state, PacedRun options children worker pace 0 events state := by
  obtain ⟨events, state, hafter, hbooting, hhead, hshutdown, hreload, hpool⟩ :=
    boots options n 0 false false children
  obtain ⟨pid, hpid, hslot⟩ := hpool worker
  refine ⟨events, state, hafter, hbooting.undisturbed, ?_, ?_, hbooting.exits worker _, hhead,
    hshutdown, hreload, ?_, ?_, ?_, ?_⟩
  · exact ordered_append List.Pairwise.nil nofun hbooting.clockReadings
  · intro reading hreading
    rw [hbooting.clockReadings reading hreading]
    simp
  · rw [hslot]
    exact hpid
  · rw [hslot]
    rfl
  · rw [hslot]
    simp
  · rw [hslot]

variable {pace : Int} {count : Nat}

/-- An exit that comes `pace` seconds after the previous one is added to the count. -/
theorem PacedRun.countExit (hrun : PacedRun options children worker pace count events state)
    (hpace : pace ≤ options.restartIntervalSec ∨ count = 0) (hmax : (count : Int) < intMax) :
    countExit options (state.pool worker) ((count + 1) * pace) =
      some { state.pool worker with
        restartCount := count + 1
        lastRestartTime := (count + 1) * pace } := by
  have hgap : ((count : Int) + 1) * pace - (state.pool worker).lastRestartTime = pace := by
    rw [hrun.last, Int.add_mul, Int.one_mul]
    omega
  have hbefore : countBefore options (state.pool worker) ((count + 1) * pace) = count := by
    unfold countBefore
    rw [hgap, hrun.counted]
    split
    · rcases hpace with hsoon | hfirst
      · omega
      · rw [hfirst]
        rfl
    · rfl
  unfold Cluster.countExit
  rw [hbefore, if_pos hmax]

/-- The events up to the point where the next exit of the worker is to be handled. -/
theorem PacedRun.exits_again (hrun : PacedRun options children worker pace count events state)
    (hinherited : Inherited children) :
    ∃ more exited, after (step options) (start n false false children) (events ++ more) =
        some exited ∧ Undisturbed (events ++ more) ∧
      clockReadings (events ++ more) = clockReadings events ∧
      exits options worker (start n false false children) (events ++ more) =
        pacedExits pace count ∧
      exited.control = .exited worker ∧ exited.pool = state.pool ∧
      exited.shutdownRequest = false ∧ exited.reloadRequest = false := by
  have hexits := worker_exits options (sound_after hinherited hrun.runs)
    hrun.control hrun.shutdown hrun.reload hrun.present
  refine ⟨_, _, (after_append hrun.runs _).trans hexits, ?_, ?_, ?_, rfl, rfl, hrun.shutdown,
    hrun.reload⟩
  · refine undisturbed_append.mpr ⟨hrun.quiet, ?_⟩
    intro event hevent
    simp only [List.mem_cons, List.not_mem_nil, or_false, or_self_left] at hevent
    rcases hevent with rfl | rfl
    · exact undisturbed_of_not_signal nofun nofun
    · exact undisturbed_of_not_signal nofun nofun
  · simp [clockReadings, Event.reading]
  · have hnone : observed (step options) (exitSeen worker) state
        [.next, .next, .waited (state.pool worker).pid] = [] := by
      refine observed_eq_nil ?_ state
      intro event hevent before
      simp only [List.mem_cons, List.not_mem_nil, or_false, or_self_left] at hevent
      rcases hevent with rfl | rfl
      · rfl
      · rfl
    unfold exits
    rw [observed_append _ hrun.runs, hnone, List.append_nil]
    exact hrun.dated

/-- The time of the next exit is later than every reading so far. -/
theorem PacedRun.read_before (hrun : PacedRun options children worker pace count events state)
    (hpos : 0 ≤ pace) :
    ∀ reading ∈ clockReadings events, reading ≤ (count + 1) * pace := by
  intro reading hreading
  have hread := hrun.read reading hreading
  rw [Int.add_mul, Int.one_mul]
  exact Int.le_trans hread (Int.le_add_of_nonneg_right hpos)

theorem exits_restart {later pid : Int} (hcontrol : state.control = .exited worker) :
    exits options worker state [.time now, .forked pid later] = [now] := by
  have hseen : exitSeen worker state (.time now) = some now := if_pos hcontrol
  unfold exits observed
  rw [hseen]
  cases step options state (.time now) with
  | none => rfl
  | some next =>
    show [now] ++ observed (step options) (exitSeen worker) next [.forked pid later] = [now]
    rw [observed_singleton]
    rfl

/-- A worker that exits at the pace of the interval is restarted while the count allows it. -/
theorem PacedRun.restarted (hrun : PacedRun options children worker pace count events state)
    (hrestart : options.restartCrashedWorkers = true) (hinherited : Inherited children)
    (hpos : 0 ≤ pace) (hpace : pace ≤ options.restartIntervalSec) (hmax : (count : Int) < intMax)
    (hcount : (count : Int) + 1 ≤ options.maxRestartsPerWorker) :
    ∃ events state, PacedRun options children worker pace (count + 1) events state := by
  obtain ⟨more, exited, hexited, hquiet, hreadings, hdated, hcontrol, hpool, hshutdown,
    hreload⟩ := hrun.exits_again hinherited
  have hbefore := hrun.read_before hpos
  have hwanted := restartWanted_after hrestart hinherited hexited hquiet worker
  have hcounted := hrun.countExit (Or.inl hpace) hmax
  rw [← hpool] at hcounted
  have hlimit : 0 ≤ options.maxRestartsPerWorker :=
    Int.le_trans (Int.natCast_nonneg (count + 1)) hcount
  obtain ⟨pid, final, hpid, hrestarts, hhead, hsameShutdown, hsameReload, hslot⟩ :=
    worker_restarts hcontrol hwanted hcounted ((withinLimit_iff hlimit).mpr hcount)
  refine ⟨(events ++ more) ++ [.time ((count + 1) * pace), .forked pid ((count + 1) * pace)],
    final, ?_⟩
  have hlast : (clockReadings ((events ++ more) ++
      [.time ((count + 1) * pace), .forked pid ((count + 1) * pace)])) =
      clockReadings events ++ [((count : Int) + 1) * pace, ((count : Int) + 1) * pace] := by
    rw [clockReadings_append, hreadings]
    rfl
  constructor
  case runs => exact (after_append hexited _).trans hrestarts
  case quiet =>
    refine undisturbed_append.mpr ⟨hquiet, ?_⟩
    intro event hevent
    simp only [List.mem_cons, List.not_mem_nil, or_false] at hevent
    rcases hevent with rfl | rfl
    · exact undisturbed_of_not_signal nofun nofun
    · exact undisturbed_of_not_signal nofun nofun
  case ordered =>
    rw [hlast]
    exact ordered_append hrun.ordered hbefore (by simp)
  case read =>
    rw [hlast]
    intro reading hreading
    rcases List.mem_append.mp hreading with hearlier | hlater
    · exact hbefore reading hearlier
    · simp only [List.mem_cons, List.not_mem_nil, or_false, or_self] at hlater
      exact Int.le_of_eq hlater
  case dated =>
    rw [pacedExits_succ, ← hdated]
    exact (observed_append _ hexited).trans (congrArg _ (exits_restart hcontrol))
  case control => exact hhead
  case shutdown => exact hsameShutdown.trans hshutdown
  case reload => exact hsameReload.trans hreload
  case present =>
    rw [hslot]
    exact hpid
  case counted =>
    rw [hslot]
    rfl
  case last =>
    rw [hslot]
    rfl
  case unmarked =>
    rw [hslot]
    exact (congrArg (fun pool => (pool worker).isExiting) hpool).trans hrun.unmarked

theorem pacedRun_exists (hrestart : options.restartCrashedWorkers = true)
    (hmax : options.maxRestartsPerWorker < intMax) (hinherited : Inherited children)
    (worker : Fin n) (hpos : 0 ≤ pace) (count : Nat)
    (hpace : pace ≤ options.restartIntervalSec ∨ count = 0)
    (hcount : (count : Int) ≤ options.maxRestartsPerWorker) :
    ∃ events state, PacedRun options children worker pace count events state := by
  induction count with
  | zero => exact pacedRun_zero options children worker pace
  | succ count ih =>
    have hsoon : pace ≤ options.restartIntervalSec := by
      rcases hpace with hsoon | hfirst
      · exact hsoon
      · cases hfirst
    rw [Int.natCast_succ] at hcount
    obtain ⟨events, state, hrun⟩ := ih (Or.inl hsoon) (by omega)
    exact hrun.restarted hrestart hinherited hpos hsoon (by omega) hcount

/-- As many exits as the paced ones, selected among them, are all of them. -/
theorem pacedExits_window {span : Int} {window : List Int}
    (hwindow : window.Sublist (pacedExits pace (count + 1)))
    (hlength : (count : Int) + 1 ≤ window.length) (hwithin : Within span window) :
    count * pace ≤ span := by
  have hall : window = pacedExits pace (count + 1) := by
    refine hwindow.eq_of_length_le ?_
    rw [pacedExits, List.length_map, List.length_range]
    omega
  have hfirst : pace ∈ (pacedExits pace (count + 1)).head? := by
    unfold pacedExits
    rw [List.range_succ_eq_map]
    simp
  have hlast : ((count : Int) + 1) * pace ∈ (pacedExits pace (count + 1)).getLast? := by
    rw [pacedExits_succ, List.getLast?_concat]
    rfl
  rw [hall] at hwithin
  have hspan := hwithin pace hfirst _ hlast
  rw [Int.add_mul, Int.one_mul, Int.add_sub_cancel] at hspan
  exact hspan

/-- The supervisor gives up a slot only after the exits that the options ask for: in every
    undisturbed run on a clock that never goes back. -/
def GivesUpInBursts (options : Options) (children : Children) (worker : Fin n) : Prop :=
  ∀ (events : List Event) (event : Event) (state next : State n),
    Undisturbed (events ++ [event]) → (clockReadings (events ++ [event])).Pairwise (· ≤ ·) →
    after (step options) (start n false false children) events = some state →
    GivesUp options worker state event next →
    ExitedTooOften options
      (exits options worker (start n false false children) (events ++ [event]))

/-- The time between two exits that the count never forgets: the interval, or any at all where
    the first exit already fills the count. -/
theorem exists_pace (hlimit : 0 ≤ options.maxRestartsPerWorker)
    (hlong : options.restartIntervalSec <
      options.maxRestartsPerWorker * options.restartIntervalSec) :
    ∃ pace, 0 ≤ pace ∧
      (pace ≤ options.restartIntervalSec ∨ options.maxRestartsPerWorker.toNat = 0) ∧
      options.restartIntervalSec < options.maxRestartsPerWorker * pace := by
  by_cases hspan : 0 ≤ options.restartIntervalSec
  · exact ⟨options.restartIntervalSec, hspan, Or.inl (Int.le_refl _), hlong⟩
  · have hnone : ¬ 1 ≤ options.maxRestartsPerWorker := by
      intro hsome
      have hbelow := Int.mul_le_mul_of_nonpos_right hsome (Int.le_of_not_le hspan)
      rw [Int.one_mul] at hbelow
      exact Int.not_lt.mpr hbelow hlong
    refine ⟨0, Int.le_refl 0, Or.inr (by omega), ?_⟩
    rw [Int.mul_zero]
    exact Int.not_le.mp hspan

/-- A worker that keeps that pace has its slot given up when the count is full. -/
theorem gives_up_at_pace (hrestart : options.restartCrashedWorkers = true)
    (hlimit : 0 ≤ options.maxRestartsPerWorker) (hmax : options.maxRestartsPerWorker < intMax)
    (hinherited : Inherited children) (hlong : options.restartIntervalSec <
      options.maxRestartsPerWorker * options.restartIntervalSec) (worker : Fin n) :
    ¬ GivesUpInBursts options children worker := by
  intro hbursts
  obtain ⟨pace, hpos, hpace, hfar⟩ := exists_pace hlimit hlong
  have hfull : (options.maxRestartsPerWorker.toNat : Int) = options.maxRestartsPerWorker :=
    Int.toNat_of_nonneg hlimit
  obtain ⟨events, state, hrun⟩ := pacedRun_exists hrestart hmax hinherited worker hpos
    options.maxRestartsPerWorker.toNat hpace (Int.le_of_eq hfull)
  obtain ⟨more, exited, hexited, hquiet, hreadings, hdated, hcontrol, hpool, -, -⟩ :=
    hrun.exits_again hinherited
  have hwanted := restartWanted_after hrestart hinherited hexited hquiet worker
  have hcounted := hrun.countExit hpace (hfull.trans_lt hmax)
  rw [← hpool] at hcounted
  -- The exit after the last restart that the limit allows.
  obtain ⟨next, hstep, hhead, hempty⟩ := worker_given_up hcontrol hwanted hcounted
    (by rw [← Bool.not_eq_true, withinLimit_iff hlimit]; dsimp only; omega)
  have hseen : exitSeen worker exited
      (.time ((options.maxRestartsPerWorker.toNat + 1) * pace)) =
      some ((options.maxRestartsPerWorker.toNat + 1) * pace) := if_pos hcontrol
  have hclock := ordered_append hrun.ordered (hrun.read_before hpos)
    (fun reading hreading => List.mem_singleton.mp hreading)
  obtain ⟨window, hwindow, hwithin, hlength⟩ := hbursts (events ++ more)
    (.time ((options.maxRestartsPerWorker.toNat + 1) * pace)) exited next
    (undisturbed_snoc.mpr ⟨hquiet, undisturbed_of_not_signal nofun nofun⟩)
    (by rw [clockReadings_snoc, hreadings]; exact hclock) hexited
    ⟨hrestart, congrArg Control.handled hcontrol, hstep, hhead, hempty⟩
  unfold exits at hwindow hdated
  rw [observed_snoc _ hexited, hdated, hseen, Option.toList_some, ← pacedExits_succ] at hwindow
  have hfits := pacedExits_window hwindow (hfull.symm ▸ hlength) hwithin
  rw [hfull] at hfits
  exact Int.not_lt.mpr hfits hfar

/-- The supervisor gives up a slot only after one exit more than the allowed restarts within one
    interval if and only if it restarts no worker at all, or its count cannot exceed the limit,
    or as many intervals as there may be restarts still fit into one. -/
theorem gives_up_in_bursts_iff (options : Options) (hlimit : 0 ≤ options.maxRestartsPerWorker)
    (children : Children) (hinherited : Inherited children) (worker : Fin n) :
    GivesUpInBursts options children worker ↔
      options.restartCrashedWorkers = false ∨ intMax ≤ options.maxRestartsPerWorker ∨
        options.maxRestartsPerWorker * options.restartIntervalSec ≤
          options.restartIntervalSec := by
  constructor
  · intro hbursts
    by_contra hnone
    obtain ⟨hrestart, hmax, hlong⟩ := not_or.mp hnone |>.imp_right not_or.mp
    exact gives_up_at_pace (Bool.not_eq_false _ ▸ hrestart) hlimit (Int.not_le.mp hmax)
      hinherited (Int.not_le.mp hlong) worker hbursts
  · intro hcondition events event state next hquiet hclock hafter hgives
    rcases hcondition with hoff | hunbounded | hfits
    · rw [hgives.restarts] at hoff
      cases hoff
    · obtain ⟨now, info, -, -, hcount, hover⟩ := hgives.limited hinherited hafter hquiet
      have hexceeded : ¬ info.restartCount ≤ options.maxRestartsPerWorker := by
        rw [← withinLimit_iff hlimit, hover]
        exact Bool.false_ne_true
      exact absurd (Int.le_trans (countExit_le hcount) hunbounded) hexceeded
    · exact hgives.exitedTooOften hlimit hinherited hafter hquiet hclock hfits

/-- With one restart allowed the count and the window agree. -/
theorem gives_up_in_bursts_one_restart :
    (0 : Int) ≤ 1 ∧
      GivesUpInBursts { Options.defaults with maxRestartsPerWorker := 1 } .none (0 : Fin 1) := by
  refine ⟨by decide, ?_⟩
  exact (gives_up_in_bursts_iff { Options.defaults with maxRestartsPerWorker := 1 } (by decide)
    .none nofun 0).mpr (Or.inr (Or.inr (by decide)))

/-- One worker that lives for a minute each time, under the default options. -/
def minuteCrashes : List Event :=
  [.forked 100 0, .next,
    .next, .next, .waited 100, .time 60, .forked 101 60,
    .next, .next, .waited 101, .time 120, .forked 102 120,
    .next, .next, .waited 102, .time 180, .forked 103 180,
    .next, .next, .waited 103, .time 240, .forked 104 240,
    .next, .next, .waited 104, .time 300, .forked 105 300,
    .next, .next, .waited 105]

/-- Its slot is given up although no minute held more than two of its exits. -/
theorem given_up_without_burst :
    ∃ state next : State 1, Undisturbed (minuteCrashes ++ [.time 360]) ∧
      (clockReadings (minuteCrashes ++ [.time 360])).Pairwise (· ≤ ·) ∧
      after (step .defaults) (start 1 false false .none) minuteCrashes = some state ∧
      GivesUp .defaults 0 state (.time 360) next ∧
      ¬ ExitedTooOften .defaults
        (exits .defaults (0 : Fin 1) (start 1 false false .none)
          (minuteCrashes ++ [.time 360])) := by
  obtain ⟨state, next, hafter, hcontrol, hstep, hhead, hempty⟩ : ∃ state next : State 1,
      after (step .defaults) (start 1 false false .none) minuteCrashes = some state ∧
        state.control.handled = some 0 ∧ step .defaults state (.time 360) = some next ∧
        next.control = .head ∧ (next.pool 0).pid = 0 := ⟨_, _, rfl, rfl, rfl, rfl, rfl⟩
  refine ⟨state, next, ?_, by decide, hafter, ⟨rfl, hcontrol, hstep, hhead, hempty⟩, ?_⟩
  · simp [Undisturbed, minuteCrashes, Event.IsShutdown]
  · rintro ⟨window, hwindow, hwithin, hlength⟩
    have hexits : exits .defaults (0 : Fin 1) (start 1 false false .none)
        (minuteCrashes ++ [.time 360]) = pacedExits 60 6 := rfl
    rw [hexits] at hwindow
    exact absurd (pacedExits_window hwindow hlength hwithin) (by decide)

end QuicproAsync.Cluster

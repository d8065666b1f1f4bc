import QuicproAsync.ClusterSafety

/-!
# What a reload does to the pool

A reload sends SIGTERM to every worker and marks its slot with `is_exiting`, and nothing
ever takes the mark away. The restart logic skips a marked slot, so the workers that end
because of a reload are not replaced: with restarts on, no limit and no failing fork, the
exit of a worker is answered by a new worker exactly as long as no reload has been served.
-/

namespace QuicproAsync.Cluster

open Machine Processes

variable {n : Nat} {options : Options} {state next : State n} {event : Event}
  {kill : Option Kill} {served : Prop}

/-- The master is inside the loop that a reload request starts. -/
def Reloading (state : State n) : Prop := ∃ i, state.control = .sweep .reload i

/-! ### The marks -/

/-- Which slots are marked, given whether a reload has been served so far. -/
structure Marked (served : Prop) (state : State n) : Prop where
  booting : ∀ i, state.control = .boot i → ¬ served
  serving : Reloading state → served
  unmarked : ¬ served → ∀ worker, (state.pool worker).isExiting = false
  marked : served → ∀ worker : Fin n, (state.pool worker).pid ≠ 0 →
    (∀ i, state.control = .sweep .reload i → worker.val < i) →
    (state.pool worker).isExiting = true
  granted : ∀ worker, state.control = .restart worker → (state.pool worker).isExiting = false

/-- A step outside the initial forks and the reload loop that marks no slot and fills none
    that was empty. -/
theorem Marked.keep (hmarked : Marked served state) (hbefore : ¬ Reloading state)
    (hboot : ∀ i, next.control ≠ .boot i) (hreload : ∀ i, next.control ≠ .sweep .reload i)
    (hgranted : ∀ worker, next.control = .restart worker → (next.pool worker).isExiting = false)
    (hexiting : ∀ worker, (next.pool worker).isExiting = (state.pool worker).isExiting)
    (hpid : ∀ worker, (next.pool worker).pid ≠ 0 → (state.pool worker).pid ≠ 0) :
    Marked (served ∨ Reloading next) next := by
  have hnot : ¬ Reloading next := fun ⟨i, hcontrol⟩ => hreload i hcontrol
  rw [or_iff_left hnot]
  refine ⟨?_, fun hreloading => absurd hreloading hnot, ?_, ?_, hgranted⟩
  · intro i hcontrol
    exact absurd hcontrol (hboot i)
  · intro hunserved worker
    rw [hexiting]
    exact hmarked.unmarked hunserved worker
  · intro hserved worker hpresent _
    rw [hexiting]
    refine hmarked.marked hserved worker (hpid worker hpresent) ?_
    intro i hcontrol
    exact absurd ⟨i, hcontrol⟩ hbefore

theorem not_reloading {control : Control n} (hcontrol : state.control = control)
    (hother : ∀ i, control ≠ .sweep .reload i) : ¬ Reloading state := by
  rintro ⟨i, hreload⟩
  exact hother i (hcontrol.symm.trans hreload)

/-- Handling an exit overwrites one slot, keeps its mark and fills no slot. -/
theorem Marked.set (hmarked : Marked served state) (hbefore : ¬ Reloading state) {worker : Fin n}
    {info : WorkerInfo} (hpool : next.pool = Function.update state.pool worker info)
    (hboot : ∀ i, next.control ≠ .boot i) (hreload : ∀ i, next.control ≠ .sweep .reload i)
    (hgranted : ∀ worker, next.control = .restart worker → (state.pool worker).isExiting = false)
    (hexiting : info.isExiting = (state.pool worker).isExiting)
    (hpid : info.pid ≠ 0 → (state.pool worker).pid ≠ 0) :
    Marked (served ∨ Reloading next) next := by
  have hsame : ∀ other, (next.pool other).isExiting = (state.pool other).isExiting := by
    intro other
    rw [hpool]
    rcases eq_or_ne other worker with rfl | hother
    · rw [Function.update_self, hexiting]
    · rw [Function.update_of_ne hother]
  refine hmarked.keep hbefore hboot hreload ?_ hsame ?_
  · intro other hcontrol
    rw [hsame]
    exact hgranted other hcontrol
  · intro other hpresent
    rw [hpool] at hpresent
    rcases eq_or_ne other worker with rfl | hother
    · rw [Function.update_self] at hpresent
      exact hpid hpresent
    · rwa [Function.update_of_ne hother] at hpresent

theorem Marked.signal (hmarked : Marked served state) (signo : Signal) :
    Marked (served ∨ Reloading (clusterSignalHandler signo state))
      (clusterSignalHandler signo state) := by
  have hsame : Reloading (clusterSignalHandler signo state) → Reloading state := by
    cases signo <;> exact id
  rw [or_iff_left_of_imp fun hreloading => hmarked.serving (hsame hreloading)]
  cases signo <;>
    exact ⟨hmarked.booting, hmarked.serving, hmarked.unmarked, hmarked.marked, hmarked.granted⟩

theorem Marked.moved (hmarked : Marked served state) {control : Control n}
    (hmoves : Moves options state event control) :
    Marked (served ∨ Reloading { state with control := control })
      { state with control := control } := by
  have hbefore : ¬ Reloading state := by
    cases hmoves <;> (refine not_reloading ‹state.control = _› ?_; nofun)
  by_cases hreload : control = .sweep .reload 0
  · -- The reload loop begins; no slot is marked by it yet.
    subst hreload
    have hserved : served ∨ Reloading { state with control := .sweep .reload 0 } :=
      Or.inr ⟨0, rfl⟩
    refine ⟨nofun, fun _ => hserved, fun hunserved => absurd hserved hunserved, ?_, nofun⟩
    intro _ worker _ hbelow
    exact absurd (hbelow 0 rfl) (Nat.not_lt_zero _)
  · refine hmarked.keep hbefore ?_ ?_ ?_ (fun _ => rfl) fun _ hpresent => hpresent
    · cases hmoves <;> nofun
    · cases hmoves with
      | reload hcontrol hrequest => exact absurd rfl hreload
      | _ => nofun
    · cases hmoves <;> nofun

theorem Marked.started (hmarked : Marked served state) {i : Nat}
    (hcontrol : state.control = .boot i) {worker : Fin n} {info : WorkerInfo}
    (hpool : next.pool = Function.update state.pool worker info)
    (hinfo : info.isExiting = false) {j : Nat} (hnext : next.control = .boot j) :
    Marked (served ∨ Reloading next) next := by
  have hunserved := hmarked.booting i hcontrol
  have hnot : ¬ Reloading next := not_reloading hnext nofun
  rw [or_iff_left hnot]
  refine ⟨fun _ _ => hunserved, fun hreloading => absurd hreloading hnot, ?_,
    fun hserved => absurd hserved hunserved, ?_⟩
  · intro _ other
    rw [hpool]
    rcases eq_or_ne other worker with rfl | hother
    · rw [Function.update_self, hinfo]
    · rw [Function.update_of_ne hother]
      exact hmarked.unmarked hunserved other
  · intro other hrestart
    rw [hnext] at hrestart
    cases hrestart

theorem signalSlot_isExiting (loop : Sweep) (state : State n) (worker other : Fin n) :
    ((signalSlot loop state worker).1.pool other).isExiting =
      ((state.pool other).isExiting ||
        (other = worker ∧ 0 < (state.pool worker).pid ∧ loop = .reload : Bool)) := by
  by_cases hpresent : 0 < (state.pool worker).pid
  · rw [signalSlot_present hpresent]
    dsimp only [State.setSlot]
    rcases eq_or_ne other worker with rfl | hother
    · simp [hpresent]
    · simp [hother]
  · rw [signalSlot_empty hpresent]
    simp [hpresent]

/-- The body of the reload loop marks its slot. -/
theorem Marked.reloaded (hmarked : Marked served state) (hsound : Sound state) {i : Nat}
    (hcontrol : state.control = .sweep .reload i) (hi : i < n) :
    Marked served
      { (signalSlot .reload state ⟨i, hi⟩).1 with control := .sweep .reload (i + 1) } := by
  have hserved := hmarked.serving ⟨i, hcontrol⟩
  refine ⟨nofun, fun _ => hserved, fun hunserved => absurd hserved hunserved, ?_, nofun⟩
  intro _ worker hpresent hbelow
  rw [signalSlot_isExiting, Bool.or_eq_true, decide_eq_true_iff]
  rw [signalSlot_pid] at hpresent
  rcases Nat.lt_or_eq_of_le (Nat.le_of_lt_succ (hbelow (i + 1) rfl)) with hbefore | hhere
  · refine Or.inl (hmarked.marked hserved worker hpresent ?_)
    intro j hj
    rw [hcontrol] at hj
    cases hj
    exact hbefore
  · have hworker : worker = ⟨i, hi⟩ := Fin.ext hhere
    subst hworker
    have htracks := hsound.tracks_idle (hcontrol ▸ rfl)
    exact Or.inr ⟨rfl, (htracks.own _ hpresent).pos, rfl⟩

theorem Marked.signalled (hmarked : Marked served state) (hsound : Sound state) {loop : Sweep}
    {i : Nat} (hcontrol : state.control = .sweep loop i) (hi : i < n) :
    Marked (served ∨ Reloading
        { (signalSlot loop state ⟨i, hi⟩).1 with control := .sweep loop (i + 1) })
      { (signalSlot loop state ⟨i, hi⟩).1 with control := .sweep loop (i + 1) } := by
  by_cases hloop : loop = .reload
  · subst hloop
    rw [or_iff_left_of_imp fun _ => hmarked.serving ⟨i, hcontrol⟩]
    exact hmarked.reloaded hsound hcontrol hi
  · have hother : ∀ j k, (.sweep loop j : Control n) ≠ .sweep .reload k := by
      intro j k hsame
      exact hloop (Control.sweep.inj hsame).1
    refine hmarked.keep (not_reloading hcontrol (hother i)) nofun (hother (i + 1)) nofun ?_ ?_
    · intro worker
      rw [signalSlot_isExiting]
      simp [hloop]
    · intro worker hpresent
      rwa [signalSlot_pid] at hpresent

theorem Marked.sweptAll (hmarked : Marked served state) {loop : Sweep} {i : Nat}
    (hcontrol : state.control = .sweep loop i) (hstop : ¬ (i < n ∧ i < loop.stop n)) :
    Marked (served ∨ Reloading (loop.done state)) (loop.done state) := by
  cases loop with
  | reload =>
    have hserved := hmarked.serving ⟨i, hcontrol⟩
    refine ⟨nofun, fun _ => Or.inl hserved, fun hunserved => absurd (Or.inl hserved) hunserved,
      ?_, nofun⟩
    intro _ worker hpresent _
    refine hmarked.marked hserved worker hpresent ?_
    intro j hj
    rw [hcontrol] at hj
    cases hj
    by_contra hbelow
    have hi := Nat.lt_of_le_of_lt (Nat.not_lt.mp hbelow) worker.isLt
    exact hstop ⟨hi, hi⟩
  | abort failed =>
    exact hmarked.keep (not_reloading hcontrol nofun) nofun nofun nofun (fun _ => rfl)
      fun _ hpresent => hpresent
  | terminate =>
    exact hmarked.keep (not_reloading hcontrol nofun) nofun nofun nofun (fun _ => rfl)
      fun _ hpresent => hpresent
  | kill =>
    exact hmarked.keep (not_reloading hcontrol nofun) nofun nofun nofun (fun _ => rfl)
      fun _ hpresent => hpresent

theorem restartWanted_iff {worker : Fin n} :
    restartWanted options state worker = true ↔ options.restartCrashedWorkers = true ∧
      (state.pool worker).isExiting = false ∧ state.shutdownRequest = false := by
  unfold restartWanted
  rw [Bool.and_eq_true, Bool.and_eq_true, Bool.not_eq_true', Bool.not_eq_true', and_assoc]

theorem Marked.turn (hmarked : Marked served state) (hsound : Sound state)
    (hturn : Turn options state event next kill) : Marked (served ∨ Reloading next) next := by
  cases hturn with
  | signal signo => exact hmarked.signal signo
  | moved hmoves => exact hmarked.moved hmoves
  | started hcontrol hi hfresh => exact hmarked.started hcontrol rfl rfl rfl
  | signalled hcontrol hi hstop => exact hmarked.signalled hsound hcontrol hi
  | swept hcontrol hstop => exact hmarked.sweptAll hcontrol hstop
  | stranger hcontrol hpid hfind =>
    exact hmarked.keep (not_reloading hcontrol nofun) nofun nofun nofun (fun _ => rfl)
      fun _ hpresent => hpresent
  | exited hcontrol hpid hfind =>
    exact hmarked.keep (not_reloading hcontrol nofun) nofun nofun nofun (fun _ => rfl)
      fun _ hpresent => hpresent
  | dropped hcontrol hwanted =>
    exact hmarked.set (not_reloading hcontrol nofun) rfl nofun nofun nofun rfl
      fun hpresent => absurd rfl hpresent
  | limited hcontrol hwanted hcount hlimit =>
    have hexiting := congrArg WorkerInfo.isExiting (countExit_eq hcount)
    exact hmarked.set (not_reloading hcontrol nofun) rfl nofun nofun nofun hexiting
      fun hpresent => absurd rfl hpresent
  | granted hcontrol hwanted hcount hlimit =>
    have hexiting := congrArg WorkerInfo.isExiting (countExit_eq hcount)
    have hpid := congrArg WorkerInfo.pid (countExit_eq hcount)
    refine hmarked.set (not_reloading hcontrol nofun) rfl nofun nofun ?_ hexiting ?_
    · intro worker hrestart
      cases hrestart
      exact (restartWanted_iff.mp hwanted).2.1
    · intro hpresent
      rwa [hpid] at hpresent
  | restarted hcontrol hfresh =>
    have hpresent := (hsound.handled _ (congrArg Control.handled hcontrol)).1
    exact hmarked.set (not_reloading hcontrol nofun) rfl nofun nofun nofun rfl
      fun _ => hpresent
  | restartFailed hcontrol =>
    exact hmarked.set (not_reloading hcontrol nofun) rfl nofun nofun nofun rfl
      fun hpresent => absurd rfl hpresent
  | graceReaped hcontrol hpid hpool hnext =>
    refine hmarked.keep (not_reloading hcontrol nofun) ?_ ?_ ?_ ?_ ?_
    · rcases hnext with rfl | rfl <;> nofun
    · rcases hnext with rfl | rfl <;> nofun
    · rcases hnext with rfl | rfl <;> nofun
    · intro worker
      dsimp only
      rw [hpool]
      split <;> rfl
    · intro worker hpresent hzero
      refine hpresent ?_
      dsimp only
      rw [hpool]
      split
      · rfl
      · exact hzero

theorem marked_after {shutdown reload : Bool} {children : Children} {events : List Event}
    (hinherited : Inherited children)
    (hafter : after (step options) (start n shutdown reload children) events = some state) :
    Marked (Visits (step options) Reloading (start n shutdown reload children) events)
      state := by
  refine invariant (P := fun events state =>
    Marked (Visits (step options) Reloading (start n shutdown reload children) events) state)
    ?_ ?_ hafter
  · rw [visits_nil]
    have hnot : ¬ Reloading (start n shutdown reload children) := not_reloading rfl nofun
    exact ⟨fun _ _ => hnot, id, fun _ _ => rfl, fun hserved => absurd hserved hnot, nofun⟩
  · intro events state event next hbefore hmarked hstep
    obtain ⟨kill, hturn⟩ := step_cases hstep
    rw [visits_snoc (after_snoc.mpr ⟨state, hbefore, hstep⟩)]
    exact hmarked.turn (sound_after hinherited hbefore) hturn

/-! ### Shutdown requests -/

def Event.IsShutdown (event : Event) : Prop :=
  event = .signal .sigint ∨ event = .signal .sigterm

theorem Turn.shutdownRequest (hturn : Turn options state event next kill)
    (hquiet : ¬ event.IsShutdown) : next.shutdownRequest = state.shutdownRequest := by
  cases hturn with
  | signal signo =>
    cases signo with
    | sigint => exact absurd (Or.inl rfl) hquiet
    | sigterm => exact absurd (Or.inr rfl) hquiet
    | sighup => rfl
    | sigkill => rfl
  | @signalled loop i hcontrol hi hstop =>
    by_cases hpresent : 0 < (state.pool ⟨i, hi⟩).pid
    · rw [signalSlot_present hpresent]
      rfl
    · rw [signalSlot_empty hpresent]
  | @swept loop i hcontrol hstop => cases loop <;> rfl
  | _ => rfl

theorem no_shutdown_after {reload : Bool} {children : Children} {events : List Event}
    (hafter : after (step options) (start n false reload children) events = some state)
    (hquiet : ∀ event ∈ events, ¬ event.IsShutdown) : state.shutdownRequest = false := by
  refine invariant (P := fun events state => (∀ event ∈ events, ¬ event.IsShutdown) →
    state.shutdownRequest = false) (fun _ => rfl) ?_ hafter hquiet
  intro events state event next _ hbefore hstep hquiet
  obtain ⟨kill, hturn⟩ := step_cases hstep
  rw [hturn.shutdownRequest (hquiet event (List.mem_append_right _ (List.mem_singleton.mpr rfl)))]
  exact hbefore fun earlier hearlier => hquiet earlier (List.mem_append_left _ hearlier)

/-! ### The end of an exit -/

/-- How the handling of an exit can come to its end. -/
theorem Turn.finishes {worker : Fin n} (hturn : Turn options state event next kill)
    (hhandled : state.control.handled = some worker) (hfinished : next.control = .head) :
    (state.control = .exited worker ∧ (∀ pid now, event ≠ .forked pid now) ∧
      (restartWanted options state worker = false ∨
        ∃ now info, event = .time now ∧
          countExit options (state.pool worker) now = some info ∧
          withinLimit options info = false)) ∨
    (state.control = .restart worker ∧ (event = .forkFailed ∨
      ∃ pid now, event = .forked pid now ∧ (next.pool worker).pid = pid ∧ 0 < pid)) := by
  cases hturn with
  | signal signo =>
    have hsame : (clusterSignalHandler signo state).control = state.control := by
      cases signo <;> rfl
    rw [← hsame, hfinished] at hhandled
    cases hhandled
  | moved hmoves =>
    rw [hmoves.idle_before] at hhandled
    cases hhandled
  | dropped hcontrol hwanted =>
    rw [hcontrol] at hhandled ⊢
    cases hhandled
    exact Or.inl ⟨rfl, nofun, Or.inl hwanted⟩
  | limited hcontrol hwanted hcount hlimit =>
    rw [hcontrol] at hhandled ⊢
    cases hhandled
    exact Or.inl ⟨rfl, nofun, Or.inr ⟨_, _, rfl, hcount, hlimit⟩⟩
  | granted hcontrol hwanted hcount hlimit => cases hfinished
  | @restarted _ pid now hcontrol hfresh =>
    rw [hcontrol] at hhandled ⊢
    cases hhandled
    refine Or.inr ⟨rfl, Or.inr ⟨pid, now, rfl, ?_, hfresh.1⟩⟩
    dsimp only [State.setSlot]
    rw [Function.update_self]
  | restartFailed hcontrol =>
    rw [hcontrol] at hhandled ⊢
    cases hhandled
    exact Or.inr ⟨rfl, Or.inl rfl⟩
  | started hcontrol | signalled hcontrol | swept hcontrol | stranger hcontrol
  | exited hcontrol | graceReaped hcontrol =>
    rw [hcontrol] at hhandled
    cases hhandled

/-- With restarts on, no limit, no shutdown request and no failing fork: when the supervisor
    has finished handling the exit of a worker, the slot holds the pid of a newly forked
    worker if and only if no reload has been served in the run before. -/
theorem repopulated_iff_no_reload (options : Options)
    (hrestart : options.restartCrashedWorkers = true)
    (hunlimited : options.maxRestartsPerWorker < 0) (reload : Bool) (children : Children)
    (hinherited : Inherited children) (events : List Event)
    (hquiet : ∀ event ∈ events, ¬ event.IsShutdown) (state : State n)
    (hafter : after (step options) (start n false reload children) events = some state)
    (worker : Fin n) (hhandled : state.control.handled = some worker) (event : Event)
    (hforks : event ≠ .forkFailed) (next : State n)
    (hstep : step options state event = some next) (hfinished : next.control = .head) :
    (∃ pid now, event = .forked pid now ∧ (next.pool worker).pid = pid) ↔
      ¬ Visits (step options) Reloading (start n false reload children) events := by
  have hsound := sound_after hinherited hafter
  have hmarked := marked_after hinherited hafter
  obtain ⟨kill, hturn⟩ := step_cases hstep
  rcases hturn.finishes hhandled hfinished with
    ⟨hcontrol, hnofork, hdropped⟩ | ⟨hcontrol, hfailed | ⟨pid, now, hforked, hpid, -⟩⟩
  · -- The exit was not answered: only a mark can be the reason.
    refine iff_of_false ?_ ?_
    · rintro ⟨pid, now, hevent, -⟩
      exact hnofork pid now hevent
    · intro hunserved
      rcases hdropped with hunwanted | ⟨now, info, -, -, hlimit⟩
      · have hwanted : restartWanted options state worker = true :=
          restartWanted_iff.mpr ⟨hrestart, hmarked.unmarked hunserved worker,
            no_shutdown_after hafter hquiet⟩
        rw [hunwanted] at hwanted
        cases hwanted
      · unfold withinLimit at hlimit
        rw [decide_eq_true hunlimited] at hlimit
        cases hlimit
  · exact absurd hfailed hforks
  · refine iff_of_true ⟨pid, now, hforked, hpid⟩ ?_
    intro hserved
    have hpresent := (hsound.handled worker hhandled).1
    have hmark := hmarked.marked hserved worker hpresent fun i hreload => by
      rw [hcontrol] at hreload
      cases hreload
    rw [hmarked.granted worker hcontrol] at hmark
    cases hmark

/-- Options without a restart limit. -/
def unlimited : Options := { Options.defaults with maxRestartsPerWorker := -1 }

theorem repopulated_without_reload :
    ∃ (state next : State 1), after (step unlimited) (start 1 false false .none)
        [.forked 100 0, .next, .next, .next, .waited 100, .time 5] = some state ∧
      step unlimited state (.forked 101 5) = some next ∧
      ¬ Visits (step unlimited) Reloading (start 1 false false .none)
        [.forked 100 0, .next, .next, .next, .waited 100, .time 5] := by
  obtain ⟨state, next, hafter, hhandled, hstep, hfinished, hpid⟩ : ∃ (state next : State 1),
      after (step unlimited) (start 1 false false .none)
        [.forked 100 0, .next, .next, .next, .waited 100, .time 5] = some state ∧
      state.control.handled = some 0 ∧ step unlimited state (.forked 101 5) = some next ∧
      next.control = .head ∧ (next.pool 0).pid = 101 := ⟨_, _, rfl, rfl, rfl, rfl, rfl⟩
  refine ⟨state, next, hafter, hstep, ?_⟩
  exact (repopulated_iff_no_reload unlimited rfl (by decide) false .none nofun _
    (by simp [Event.IsShutdown]) state hafter 0 hhandled (.forked 101 5) nofun next hstep
    hfinished).mp ⟨101, 5, rfl, hpid⟩

/-- One worker, a SIGHUP, and the exit it causes: the slot stays empty. -/
theorem reload_leaves_slot_empty :
    ∃ (state next : State 1), after (step unlimited) (start 1 false false .none)
        [.forked 100 0, .next, .signal .sighup, .next, .next, .next, .next, .waited 100] =
          some state ∧
      state.control = .exited 0 ∧ step unlimited state .next = some next ∧
      next.control = .head ∧ (next.pool 0).pid = 0 :=
  ⟨_, _, rfl, rfl, rfl, rfl, rfl⟩

end QuicproAsync.Cluster

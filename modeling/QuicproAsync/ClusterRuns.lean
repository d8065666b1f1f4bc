import QuicproAsync.ClusterSafety

/-!
# Runs the master can make

The kernel always has a fresh pid, so from any starting point the master can fork all its
workers and reach the head of the supervisor loop. A worker that exits there is reaped,
found in its slot, and replaced if the restart is granted. The lemmas give these runs with
the events they take, for the arguments that need a run with certain exits in it.
-/

namespace QuicproAsync.Cluster

open Machine Processes

variable {n : Nat} {options : Options} {state : State n} {worker : Fin n}

/-- Nothing but successful forks, all at one time, and the code running on. -/
def Booting (now : Int) (events : List Event) : Prop :=
  ∀ event ∈ events, event = .next ∨ ∃ pid, event = .forked pid now

theorem Booting.snoc_next {now : Int} {events : List Event} (hbooting : Booting now events) :
    Booting now (events ++ [.next]) := by
  intro event hevent
  rcases List.mem_append.mp hevent with hearlier | hlast
  · exact hbooting event hearlier
  · exact Or.inl (List.mem_singleton.mp hlast)

theorem Booting.not_signal {now : Int} {events : List Event} (hbooting : Booting now events)
    (signo : Signal) : Event.signal signo ∉ events := by
  intro hsignal
  rcases hbooting _ hsignal with hnext | ⟨pid, hforked⟩
  · cases hnext
  · cases hforked

/-- One more initial fork. -/
theorem bootStep_forked (options : Options) (now : Int) {i : Nat} (hi : i < n)
    (hcontrol : state.control = .boot i) :
    ∃ pid next, 0 < pid ∧ step options state (.forked pid now) = some next ∧
      next.control = .boot (i + 1) ∧ next.shutdownRequest = state.shutdownRequest ∧
      next.reloadRequest = state.reloadRequest ∧
      next.pool = Function.update state.pool ⟨i, hi⟩ ⟨pid, 0, now, false⟩ := by
  obtain ⟨pid, hfresh⟩ := state.children.exists_fresh
  refine ⟨pid, { state.setSlot ⟨i, hi⟩ ⟨pid, 0, now, false⟩ with
    children := state.children.spawn pid hfresh
    control := .boot (i + 1) }, hfresh.1, ?_, rfl, rfl, rfl, rfl⟩
  simp only [step, turn, quietStep, hcontrol, bootStep, dif_pos hi, dif_pos hfresh]
  rfl

theorem bootStep_next {i : Nat} (hi : ¬ i < n) (hcontrol : state.control = .boot i) :
    step options state .next = some { state with control := .head } := by
  simp only [step, turn, quietStep, hcontrol, bootStep, if_neg hi]
  rfl

/-- The initial forks from worker `i` on. -/
theorem boots_from (options : Options) (now : Int) {remaining i : Nat} (hrest : i + remaining = n)
    {state : State n} (hcontrol : state.control = .boot i) :
    ∃ events final, after (step options) state events = some final ∧ Booting now events ∧
      final.control = .head ∧ final.shutdownRequest = state.shutdownRequest ∧
      final.reloadRequest = state.reloadRequest ∧
      (∀ worker : Fin n, worker.val < i → final.pool worker = state.pool worker) ∧
      ∀ worker : Fin n, i ≤ worker.val →
        ∃ pid, 0 < pid ∧ final.pool worker = ⟨pid, 0, now, false⟩ := by
  induction remaining generalizing i state with
  | zero =>
    have hi : ¬ i < n := by omega
    refine ⟨[.next], { state with control := .head }, ?_, ?_, rfl, rfl, rfl, fun _ _ => rfl, ?_⟩
    · rw [after, List.foldlM_cons, bootStep_next hi hcontrol]
      rfl
    · intro event hevent
      exact Or.inl (List.mem_singleton.mp hevent)
    · intro worker hworker
      exact absurd worker.isLt (by omega)
  | succ remaining ih =>
    have hi : i < n := by omega
    obtain ⟨pid, next, hpid, hstep, hnext, hsameShutdown, hsameReload, hpool⟩ :=
      bootStep_forked options now hi hcontrol
    obtain ⟨events, final, hafter, hbooting, hhead, hshutdown, hreload, hbelow, habove⟩ :=
      ih (by omega) hnext
    refine ⟨.forked pid now :: events, final, ?_, ?_, hhead, hshutdown.trans hsameShutdown,
      hreload.trans hsameReload, ?_, ?_⟩
    · rw [after, List.foldlM_cons, hstep]
      exact hafter
    · intro event hevent
      rcases List.mem_cons.mp hevent with rfl | hlater
      · exact Or.inr ⟨pid, rfl⟩
      · exact hbooting event hlater
    · intro worker hworker
      have hother : worker ≠ ⟨i, hi⟩ := by
        rintro rfl
        exact Nat.lt_irrefl _ hworker
      rw [hbelow worker (Nat.lt_succ_of_lt hworker), hpool]
      exact Function.update_of_ne hother _ _
    · intro worker hworker
      rcases Nat.eq_or_lt_of_le hworker with hsame | hlater
      · have hslot : worker = ⟨i, hi⟩ := Fin.ext hsame.symm
        refine ⟨pid, hpid, ?_⟩
        rw [hbelow worker (by omega), hpool, hslot]
        exact Function.update_self _ _ _
      · exact habove worker hlater

theorem boots (options : Options) (n : Nat) (now : Int) (shutdown reload : Bool)
    (children : Children) :
    ∃ events final, after (step options) (start n shutdown reload children) events = some final ∧
      Booting now events ∧ final.control = .head ∧ final.shutdownRequest = shutdown ∧
      final.reloadRequest = reload ∧
      ∀ worker : Fin n, ∃ pid, 0 < pid ∧ final.pool worker = ⟨pid, 0, now, false⟩ := by
  have hstart : (start n shutdown reload children).control = .boot 0 := rfl
  obtain ⟨events, final, hafter, hbooting, hhead, hshutdown, hreload, -, hpool⟩ :=
    boots_from options now (Nat.zero_add n) hstart
  exact ⟨events, final, hafter, hbooting, hhead, hshutdown, hreload,
    fun worker => hpool worker (Nat.zero_le _)⟩

/-! ### An exit and a restart -/

theorem findSlot_of_sound (hsound : Sound state) (hidle : state.control.handled = none)
    (hpresent : (state.pool worker).pid ≠ 0) :
    findSlot state.pool (state.pool worker).pid = some worker := by
  have htracks := hsound.tracks_idle hidle
  cases hfind : findSlot state.pool (state.pool worker).pid with
  | none => exact absurd rfl (findSlot_none hfind worker)
  | some slot =>
    have hsame : worker = slot := htracks.apart worker slot hpresent (findSlot_some hfind).symm
    rw [hsame]

/-- A worker whose exit is reported at the head of the supervisor loop is found in its slot. -/
theorem worker_exits (options : Options) (hsound : Sound state) (hcontrol : state.control = .head)
    (hshutdown : state.shutdownRequest = false) (hreload : state.reloadRequest = false)
    (hpresent : 0 < (state.pool worker).pid) :
    after (step options) state [.next, .next, .waited (state.pool worker).pid] =
      some { state with
        children := state.children.reap (state.pool worker).pid
        control := .exited worker } := by
  have hidle : state.control.handled = none := by rw [hcontrol]; rfl
  have hslot : (state.pool worker).pid ≠ 0 := Int.ne_of_gt hpresent
  have hfind := findSlot_of_sound hsound hidle hslot
  have hunreaped : state.children.Unreaped (state.pool worker).pid :=
    ((hsound.tracks_idle hidle).own worker hslot).unreaped
  have hpid : ¬ (state.pool worker).pid ≤ 0 := Int.not_le.mpr hpresent
  simp [after, step, turn, quietStep, waitStep, hcontrol, hshutdown, hreload, hpid, hunreaped,
    hfind]

/-- A restart that is wanted and within the limit is made. -/
theorem worker_restarts (hcontrol : state.control = .exited worker)
    (hwanted : restartWanted options state worker = true) {now : Int} {info : WorkerInfo}
    (hcount : countExit options (state.pool worker) now = some info)
    (hwithin : withinLimit options info = true) :
    ∃ pid next, 0 < pid ∧
      after (step options) state [.time now, .forked pid now] = some next ∧
      next.control = .head ∧ next.shutdownRequest = state.shutdownRequest ∧
      next.reloadRequest = state.reloadRequest ∧ next.pool worker = { info with pid := pid } := by
  obtain ⟨pid, hfresh⟩ := state.children.exists_fresh
  refine ⟨pid, { state.setSlot worker { info with pid := pid } with
    children := state.children.spawn pid hfresh
    control := .head }, hfresh.1, ?_, rfl, rfl, rfl, Function.update_self _ _ _⟩
  simp [after, step, turn, quietStep, exitedStep, restartStep, hcontrol, hwanted, hcount,
    hwithin, hfresh, State.setSlot]

/-- A restart beyond the limit is not made. -/
theorem worker_given_up (hcontrol : state.control = .exited worker)
    (hwanted : restartWanted options state worker = true) {now : Int} {info : WorkerInfo}
    (hcount : countExit options (state.pool worker) now = some info)
    (hover : withinLimit options info = false) :
    ∃ next, step options state (.time now) = some next ∧ next.control = .head ∧
      (next.pool worker).pid = 0 := by
  refine ⟨{ state.setSlot worker { info with pid := 0 } with control := .head }, ?_, rfl, ?_⟩
  · simp [step, turn, quietStep, exitedStep, hcontrol, hwanted, hcount, hover]
  · dsimp only [State.setSlot]
    rw [Function.update_self]

end QuicproAsync.Cluster

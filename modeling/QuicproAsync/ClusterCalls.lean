import QuicproAsync.ClusterReload
import QuicproAsync.ClusterRuns

/-!
# Successive calls

`g_shutdown_request` and `g_reload_request` are statics of the process. A call of
`quicpro_cluster_orchestrate` does not reset them when it begins, `g_shutdown_request` is
never reset at all, and the signal handler stays installed when the call returns. So a call
starts with the requests that earlier calls left behind. It answers only to its own signals
if and only if nothing was left behind.
-/

namespace QuicproAsync.Cluster

open Machine Processes

variable {n : Nat} {options : Options} {state next : State n} {event : Event}
  {kill : Option Kill} {shutdown reload : Bool} {children : Children} {events : List Event}

/-! ### Shutdown requests -/

theorem Event.IsShutdown.requests (hshutdown : event.IsShutdown)
    (hstep : step options state event = some next) : next.shutdownRequest = true := by
  rcases hshutdown with rfl | rfl
  · cases hstep
    rfl
  · cases hstep
    rfl

/-- The flag is set if it was set at the start or a shutdown signal has arrived since. -/
theorem shutdownRequest_after
    (hafter : after (step options) (start n shutdown reload children) events = some state) :
    state.shutdownRequest = true ↔ shutdown = true ∨ ∃ event ∈ events, event.IsShutdown := by
  refine invariant (P := fun events state =>
    state.shutdownRequest = true ↔ shutdown = true ∨ ∃ event ∈ events, event.IsShutdown)
    ?_ ?_ hafter
  · simp [start]
  · intro events state event next _ hbefore hstep
    by_cases hshutdown : event.IsShutdown
    · refine iff_of_true (hshutdown.requests hstep) (Or.inr ⟨event, ?_, hshutdown⟩)
      exact List.mem_append_right _ (List.mem_singleton.mpr rfl)
    · obtain ⟨kill, hturn⟩ := step_cases hstep
      rw [hturn.shutdownRequest hshutdown, hbefore]
      simp [hshutdown, or_and_right, exists_or]

/-- The supervision loop has ended, and the workers are being asked to end. -/
def Terminating (state : State n) : Prop := ∃ i, state.control = .sweep .terminate i

theorem not_terminating {control : Control n} (hcontrol : state.control = control)
    (hother : ∀ i, control ≠ .sweep .terminate i) : ¬ Terminating state := by
  rintro ⟨i, hterminate⟩
  exact hother i (hcontrol.symm.trans hterminate)

theorem Turn.terminating (hturn : Turn options state event next kill)
    (hnext : Terminating next) : Terminating state ∨ next.shutdownRequest = true := by
  cases hturn with
  | signal signo => cases signo <;> exact Or.inl hnext
  | moved hmoves =>
    cases hmoves with
    | shutdown hcontrol hrequest => exact Or.inr hrequest
    | _ => exact absurd hnext (not_terminating rfl nofun)
  | signalled hcontrol hi hstop =>
    obtain ⟨j, hloop⟩ := hnext
    cases hloop
    exact Or.inl ⟨_, hcontrol⟩
  | @swept loop i hcontrol hstop =>
    cases loop <;> exact absurd hnext (not_terminating rfl nofun)
  | graceReaped hcontrol hpid hpool hcases =>
    rcases hcases with rfl | rfl <;> exact absurd hnext (not_terminating rfl nofun)
  | _ => exact absurd hnext (not_terminating rfl nofun)

theorem Turn.shutdownRequest_mono (hturn : Turn options state event next kill)
    (hstep : step options state event = some next) (hrequest : state.shutdownRequest = true) :
    next.shutdownRequest = true := by
  by_cases hshutdown : event.IsShutdown
  · exact hshutdown.requests hstep
  · rw [hturn.shutdownRequest hshutdown]
    exact hrequest

/-- The supervision loop ends only when a shutdown has been requested. -/
theorem terminating_after
    (hafter : after (step options) (start n shutdown reload children) events = some state) :
    Terminating state → state.shutdownRequest = true := by
  refine invariant (P := fun _ state => Terminating state → state.shutdownRequest = true)
    ?_ ?_ hafter
  · rintro ⟨i, hcontrol⟩
    cases hcontrol
  · intro events state event next _ hbefore hstep hterminating
    obtain ⟨kill, hturn⟩ := step_cases hstep
    rcases hturn.terminating hterminating with hearlier | hrequest
    · exact hturn.shutdownRequest_mono hstep (hbefore hearlier)
    · exact hrequest

/-! ### Reload requests -/

/-- The step takes the reload branch. -/
def reloadSeen (state : State n) (event : Event) : Option Unit :=
  if state.control = .poll ∧ event = .next ∧ state.reloadRequest = true then some () else none

/-- How often a run takes the reload branch. -/
def reloads (options : Options) (start : State n) (events : List Event) : Nat :=
  (observed (step options) reloadSeen start events).length

def reloadSignals (events : List Event) : Nat := events.count (.signal .sighup)

/-- What a step can do to the reload request. -/
inductive ReloadTurn (state : State n) (event : Event) (next : State n) : Prop where
  | asked (hevent : event = .signal .sighup) (hrequest : next.reloadRequest = true)
      (hcontrol : next.control = state.control)
  | taken (hevent : event = .next) (hcontrol : state.control = .poll)
      (hbefore : state.reloadRequest = true) (hrequest : next.reloadRequest = true)
      (hnext : Reloading next)
  | served (hevent : event = .next) (hbefore : Reloading state)
      (hrequest : next.reloadRequest = false) (hnext : ¬ Reloading next)
  | other (hevent : event ≠ .signal .sighup) (hseen : reloadSeen state event = none)
      (hrequest : next.reloadRequest = state.reloadRequest)
      (hsame : Reloading next ↔ Reloading state)

theorem reloadSeen_of_ne (hcontrol : state.control ≠ .poll) : reloadSeen state event = none :=
  if_neg fun hseen => hcontrol hseen.1

/-- A step between points outside the reload branch, other than the test of the request. -/
theorem ReloadTurn.outside {control : Control n} (hcontrol : state.control = control)
    (hpoll : control ≠ .poll) (hbefore : ∀ i, control ≠ .sweep .reload i)
    (hafter : ∀ i, next.control ≠ .sweep .reload i) (hevent : event ≠ .signal .sighup)
    (hrequest : next.reloadRequest = state.reloadRequest) : ReloadTurn state event next := by
  refine .other hevent (reloadSeen_of_ne (hcontrol ▸ hpoll)) hrequest (iff_of_false ?_ ?_)
  · exact not_reloading rfl hafter
  · exact not_reloading hcontrol hbefore

theorem ReloadTurn.moved {control : Control n} (hmoves : Moves options state event control) :
    ReloadTurn state event { state with control := control } := by
  cases hmoves with
  | reload hcontrol hrequest => exact .taken rfl hcontrol hrequest hrequest ⟨0, rfl⟩
  | noReload hcontrol hrequest =>
    have hseen : reloadSeen state .next = none := if_neg (by simp [hrequest])
    exact .other nofun hseen rfl
      (iff_of_false (not_reloading rfl nofun) (not_reloading hcontrol nofun))
  | startFailed hcontrol | booted hcontrol | shutdown hcontrol | supervise hcontrol
  | idle hcontrol | setDeadline hcontrol | early hcontrol | expired hcontrol
  | graceIdle hcontrol => exact .outside hcontrol nofun nofun nofun nofun rfl

theorem signalSlot_reloadRequest (loop : Sweep) (state : State n) (worker : Fin n) :
    (signalSlot loop state worker).1.reloadRequest = state.reloadRequest := by
  by_cases hpresent : 0 < (state.pool worker).pid
  · rw [signalSlot_present hpresent]
    rfl
  · rw [signalSlot_empty hpresent]

theorem Turn.reloadTurn (hturn : Turn options state event next kill) :
    ReloadTurn state event next := by
  cases hturn with
  | signal signo =>
    cases signo with
    | sighup => exact .asked rfl rfl rfl
    | sigint | sigterm | sigkill => exact .other nofun (if_neg nofun) rfl Iff.rfl
  | moved hmoves => exact .moved hmoves
  | @signalled loop i hcontrol hi hstop =>
    refine .other nofun (reloadSeen_of_ne (hcontrol ▸ nofun))
      (signalSlot_reloadRequest loop state ⟨i, hi⟩) ?_
    unfold Reloading
    rw [hcontrol]
    simp
  | @swept loop i hcontrol hstop =>
    cases loop with
    | reload => exact .served rfl ⟨i, hcontrol⟩ rfl (not_reloading rfl nofun)
    | abort failed => exact .outside hcontrol nofun nofun nofun nofun rfl
    | terminate => exact .outside hcontrol nofun nofun nofun nofun rfl
    | kill => exact .outside hcontrol nofun nofun nofun nofun rfl
  | graceReaped hcontrol hpid hpool hnext =>
    refine .outside hcontrol nofun nofun ?_ nofun rfl
    rcases hnext with rfl | rfl <;> nofun
  | started hcontrol | stranger hcontrol | exited hcontrol | dropped hcontrol
  | limited hcontrol | granted hcontrol | restarted hcontrol | restartFailed hcontrol =>
    exact .outside hcontrol nofun nofun nofun nofun rfl

/-- Each reload has been asked for, and so has the one that is pending. -/
structure Asked (given taken : Nat) (state : State n) : Prop where
  served : taken ≤ given
  pending : ¬ Reloading state → state.reloadRequest = true → taken < given
  serving : Reloading state → 0 < taken

theorem Asked.turn {given taken : Nat} (hasked : Asked given taken state)
    (hturn : ReloadTurn state event next) :
    Asked (given + [event].count (.signal .sighup)) (taken + (reloadSeen state event).toList.length)
      next := by
  cases hturn with
  | asked hevent hrequest hcontrol =>
    have hseen : reloadSeen state event = none := if_neg (by simp [hevent])
    have hsame : Reloading next ↔ Reloading state := by
      unfold Reloading
      rw [hcontrol]
    have hserved := hasked.served
    rw [hseen, hevent, List.count_singleton_self]
    exact ⟨Nat.le_succ_of_le hserved, fun _ _ => Nat.lt_succ_of_le hserved,
      fun hreloading => hasked.serving (hsame.mp hreloading)⟩
  | taken hevent hcontrol hbefore hrequest hnext =>
    have hseen : reloadSeen state event = some () := if_pos ⟨hcontrol, hevent, hbefore⟩
    have hpending := hasked.pending (not_reloading hcontrol nofun) hbefore
    rw [hseen, hevent]
    exact ⟨hpending, fun hnot => absurd hnext hnot, fun _ => Nat.succ_pos taken⟩
  | served hevent hbefore hrequest hnext =>
    have hcontrol : state.control ≠ .poll := by
      obtain ⟨i, hcontrol⟩ := hbefore
      exact hcontrol ▸ nofun
    rw [reloadSeen_of_ne hcontrol, hevent]
    refine ⟨hasked.served, ?_, fun hreloading => absurd hreloading hnext⟩
    intro _ hpending
    rw [hrequest] at hpending
    cases hpending
  | other hevent hseen hrequest hsame =>
    rw [hseen, List.count_singleton, if_neg (by simpa using hevent)]
    exact ⟨hasked.served, fun hnot hpending =>
        hasked.pending (fun hreloading => hnot (hsame.mpr hreloading)) (hrequest ▸ hpending),
      fun hreloading => hasked.serving (hsame.mp hreloading)⟩

theorem asked_after
    (hafter : after (step options) (start n shutdown reload children) events = some state) :
    Asked (reload.toNat + reloadSignals events)
      (reloads options (start n shutdown reload children) events) state := by
  refine invariant (P := fun events state => Asked (reload.toNat + reloadSignals events)
    (reloads options (start n shutdown reload children) events) state) ?_ ?_ hafter
  · refine ⟨Nat.zero_le _, ?_, fun hreloading => absurd hreloading (not_reloading rfl nofun)⟩
    intro _ hrequest
    change reload = true at hrequest
    rw [hrequest]
    exact Nat.one_pos
  · intro events state event next hbefore hasked hstep
    obtain ⟨kill, hturn⟩ := step_cases hstep
    unfold reloads reloadSignals
    rw [observed_snoc event hbefore, List.length_append, List.count_append, ← Nat.add_assoc]
    exact hasked.turn hturn.reloadTurn

/-- Without a request at the start and without SIGHUP the reload branch is never taken. -/
theorem no_reload_after
    (hafter : after (step options) (start n shutdown false children) events = some state)
    (hquiet : ∀ event ∈ events, event ≠ .signal .sighup) :
    state.reloadRequest = false ∧ ¬ Reloading state := by
  have hsignals : reloadSignals events = 0 := by
    unfold reloadSignals
    rw [List.count_eq_zero]
    intro hsighup
    exact hquiet _ hsighup rfl
  have hasked := asked_after hafter
  rw [hsignals] at hasked
  have hnone : reloads options (start n shutdown false children) events = 0 :=
    Nat.le_zero.mp hasked.served
  have hnot : ¬ Reloading state := by
    intro hreloading
    exact Nat.ne_of_gt (hasked.serving hreloading) hnone
  refine ⟨?_, hnot⟩
  cases hrequest : state.reloadRequest with
  | false => rfl
  | true => exact absurd (hasked.pending hnot hrequest) (Nat.not_lt_zero _)

/-! ### The process between two calls -/

/-- What a process keeps from one call to the next. -/
structure Host where
  shutdownRequest : Bool
  reloadRequest : Bool
  children : Children

/-- The children that are there when a call begins are none of its workers. -/
def Host.call (host : Host) (n : Nat) : State n :=
  start n host.shutdownRequest host.reloadRequest host.children.disown

/-- The states of a process before one of its calls, with all the events of the earlier ones.
    The handler stays installed, so a signal that arrives between two calls is one of the
    events of the earlier call, after its return. -/
inductive Host.Reached : List Event → Host → Prop where
  | fresh (children : Children) : Reached [] ⟨false, false, children⟩
  | called {past events : List Event} {host : Host} {n : Nat} {options : Options}
      {state : State n} (hbefore : Reached past host)
      (hafter : after (step options) (host.call n) events = some state)
      (hreturned : state.control = .returned) :
      Reached (past ++ events) ⟨state.shutdownRequest, state.reloadRequest, state.children⟩

theorem Host.Reached.shutdownRequest {past : List Event} {host : Host}
    (hreached : host.Reached past) :
    host.shutdownRequest = true ↔ ∃ event ∈ past, event.IsShutdown := by
  induction hreached with
  | fresh children => simp
  | called hbefore hafter hreturned ih =>
    rw [shutdownRequest_after hafter, ih]
    simp [or_and_right, exists_or]

/-- In every run of the call the supervision loop ends only after a SIGINT or SIGTERM of the
    call itself, and the reload branch is taken once for each SIGHUP of the call at most. -/
def Independent (options : Options) (n : Nat) (host : Host) : Prop :=
  ∀ (events : List Event) (state : State n),
    after (step options) (host.call n) events = some state →
    (state.control = .sweep .terminate 0 → ∃ event ∈ events, event.IsShutdown) ∧
    reloads options (host.call n) events ≤ reloadSignals events

/-- The loop of the next call ends without any signal. -/
theorem not_independent_of_shutdown {host : Host} (hrequest : host.shutdownRequest = true) :
    ¬ Independent options n host := by
  intro hindependent
  obtain ⟨events, booted, hbooted, hbooting, hhead, hshutdown, -, -⟩ := boots options n 0
    host.shutdownRequest host.reloadRequest host.children.disown
  have hstep : step options booted .next =
      some { booted with control := .sweep .terminate 0 } := by
    simp [step, turn, quietStep, hhead, hshutdown, hrequest]
  have hafter := after_snoc.mpr ⟨booted, hbooted, hstep⟩
  obtain ⟨event, hevent, hsignal⟩ := (hindependent _ _ hafter).1 rfl
  rcases hsignal with rfl | rfl
  · exact hbooting.snoc_next.not_signal .sigint hevent
  · exact hbooting.snoc_next.not_signal .sigterm hevent

/-- The reload branch of the next call is taken without any signal. -/
theorem not_independent_of_reload {host : Host} (hclear : host.shutdownRequest = false)
    (hrequest : host.reloadRequest = true) : ¬ Independent options n host := by
  intro hindependent
  obtain ⟨events, booted, hbooted, hbooting, hhead, hshutdown, hreload, -⟩ := boots options n 0
    host.shutdownRequest host.reloadRequest host.children.disown
  have hsupervise : step options booted .next = some { booted with control := .poll } := by
    simp [step, turn, quietStep, hhead, hshutdown, hclear]
  have hpoll := after_snoc.mpr ⟨booted, hbooted, hsupervise⟩
  have hstep : step options { booted with control := .poll } .next =
      some { booted with control := .sweep .reload 0 } := by
    simp [step, turn, quietStep, hreload, hrequest]
  have hafter := after_snoc.mpr ⟨_, hpoll, hstep⟩
  have hserving := (asked_after hafter).serving ⟨0, rfl⟩
  have hsignals : reloadSignals ((events ++ [.next]) ++ [.next]) = 0 :=
    List.count_eq_zero.mpr (hbooting.snoc_next.snoc_next.not_signal .sighup)
  have hbound := (hindependent _ _ hafter).2
  rw [hsignals] at hbound
  exact Nat.not_lt_of_le hbound hserving

/-- After any sequence of earlier calls, the next call is independent of them if and only if
    none of them was sent SIGINT or SIGTERM, also after its return, and no SIGHUP is pending. -/
theorem independent_iff_no_requests_left {past : List Event} {host : Host}
    (hreached : host.Reached past) (options : Options) (n : Nat) :
    Independent options n host ↔
      (∀ event ∈ past, ¬ event.IsShutdown) ∧ host.reloadRequest = false := by
  have hpast : host.shutdownRequest = false ↔ ∀ event ∈ past, ¬ event.IsShutdown := by
    rw [← Bool.not_eq_true, hreached.shutdownRequest]
    exact not_exists.trans (forall_congr' fun _ => not_and)
  rw [← hpast]
  constructor
  · intro hindependent
    have hclear : host.shutdownRequest = false := by
      rw [← Bool.not_eq_true]
      intro hrequest
      exact not_independent_of_shutdown hrequest hindependent
    refine ⟨hclear, ?_⟩
    rw [← Bool.not_eq_true]
    intro hrequest
    exact not_independent_of_reload hclear hrequest hindependent
  · rintro ⟨hclear, hnone⟩ events state hafter
    unfold Host.call at hafter ⊢
    rw [hclear, hnone] at hafter ⊢
    constructor
    · intro hcontrol
      have hrequest := terminating_after hafter ⟨0, hcontrol⟩
      rcases (shutdownRequest_after hafter).mp hrequest with hstart | hsignal
      · cases hstart
      · exact hsignal
    · have hserved := (asked_after hafter).served
      rwa [Bool.toNat_false, Nat.zero_add] at hserved

/-- The first call of a process depends on nothing. -/
theorem independent_in_fresh_process :
    Host.Reached [] ⟨false, false, .none⟩ ∧ Independent .defaults 2 ⟨false, false, .none⟩ := by
  have hreached : Host.Reached [] ⟨false, false, .none⟩ := .fresh .none
  exact ⟨hreached, (independent_iff_no_requests_left hreached .defaults 2).mpr ⟨nofun, rfl⟩⟩

/-- One worker, ended by a SIGTERM to the master. -/
def endedCall : List Event :=
  [.forked 100 0, .next, .signal .sigterm, .next, .next, .next, .time 10, .time 11, .waited 100,
    .next, .next]

/-- The call after one that was ended by SIGTERM leaves its loop at once. -/
theorem next_call_ends_without_signal :
    ∃ (host : Host) (state : State 1), host.Reached endedCall ∧
      after (step .defaults) (host.call 1) [.forked 101 50, .next, .next] = some state ∧
      state.control = .sweep .terminate 0 ∧
      ∀ event ∈ [Event.forked 101 50, .next, .next], ¬ event.IsShutdown := by
  obtain ⟨ended, hafter, hreturned, hrequest⟩ : ∃ ended : State 1,
      after (step .defaults) (Host.call ⟨false, false, .none⟩ 1) endedCall = some ended ∧
        ended.control = .returned ∧
        ∃ state : State 1, after (step .defaults)
            (Host.call ⟨ended.shutdownRequest, ended.reloadRequest, ended.children⟩ 1)
            [.forked 101 50, .next, .next] = some state ∧
          state.control = .sweep .terminate 0 := ⟨_, rfl, rfl, _, rfl, rfl⟩
  obtain ⟨state, hnext, hcontrol⟩ := hrequest
  refine ⟨_, state, .called (.fresh .none) hafter hreturned, hnext, hcontrol, ?_⟩
  simp [Event.IsShutdown]

end QuicproAsync.Cluster

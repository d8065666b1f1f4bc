import QuicproAsync.ClusterSafety

/-!
# The grace period of a shutdown

What the master does before it sends SIGKILL to a worker. `marks` lists the signals it
sent, the clock readings it took and the workers it forked, in the order of the run. The
deadline is computed from a reading that is taken after the SIGTERMs, and no worker is
forked after the first of them, so a worker that gets SIGKILL had all of the period.
-/

namespace QuicproAsync.Cluster

open Machine Processes

variable {n : Nat} {options : Options} {state next : State n} {event : Event} {kill : Option Kill}

inductive Mark where
  | sent (call : Kill)
  | read (now : Int)
  | forked (pid : Int)
deriving DecidableEq, Repr

def markOf (options : Options) (state : State n) : Event → Option Mark
  | .time now => some (.read now)
  | .forked pid _ => some (.forked pid)
  | event => (turn options state event).bind fun out => out.2.map .sent

/-- The signals, clock readings and forks of a run, in order. -/
def marks (options : Options) (start : State n) (events : List Event) : List Mark :=
  observed (step options) (markOf options) start events

/-- A SIGTERM was sent to the pid, these marks have come since, in this order, and no worker has
    been forked since. -/
def SinceTerm (pid : Int) (reads log : List Mark) : Prop :=
  ∃ before after, log = before ++ .sent ⟨pid, .sigterm⟩ :: after ∧
    (∀ child, .forked child ∉ after) ∧ reads.Sublist after

/-- The workers that the shutdown has asked to end. -/
def Control.asked : Control n → Fin n → Prop
  | .sweep .terminate i, worker => worker.val < i
  | .sweep .kill _, _ | .deadline, _ | .grace _, _ | .graceWait _, _ => True
  | _, _ => False

/-- The clock readings since a worker was asked to end. -/
def Control.seen (options : Options) : Control n → List Mark → Prop
  | .grace limit, reads | .graceWait limit, reads =>
    reads = [.read (limit - options.gracefulShutdownTimeoutSec)]
  | .sweep .kill _, reads => ∃ begun now, reads = [.read begun, .read now] ∧
      begun + options.gracefulShutdownTimeoutSec ≤ now
  | _, reads => reads = []

def Patient (options : Options) (log : List Mark) (state : State n) : Prop :=
  ∀ worker, state.control.asked worker → 0 < (state.pool worker).pid →
    ∃ reads, state.control.seen options reads ∧ SinceTerm (state.pool worker).pid reads log

theorem SinceTerm.append {pid : Int} {reads reads' log more : List Mark}
    (hsince : SinceTerm pid reads log) (hmore : ∀ child, .forked child ∉ more)
    (hreads : reads'.Sublist (reads ++ more)) : SinceTerm pid reads' (log ++ more) := by
  obtain ⟨before, after, rfl, hforked, hafter⟩ := hsince
  refine ⟨before, after ++ more, by simp, fun child => ?_,
    hreads.trans (hafter.append (List.Sublist.refl more))⟩
  simp [hforked child, hmore child]

theorem SinceTerm.keep {pid : Int} {reads log more : List Mark} (hsince : SinceTerm pid reads log)
    (hmore : ∀ child, .forked child ∉ more) : SinceTerm pid reads (log ++ more) :=
  hsince.append hmore (List.sublist_append_left _ _)

/-- The wait is given up early only when no worker is left. -/
theorem graceWait_next {deadline : Int} (hcontrol : state.control = .graceWait deadline)
    {pid : Int} (hturn : turn options state (.waited pid) = some (next, kill)) :
    next.control = .grace deadline ∨ ∀ worker, (next.pool worker).pid ≤ 0 := by
  simp only [turn, hcontrol, quietStep, graceWaitStep] at hturn
  split at hturn
  · cases hturn
    exact .inl rfl
  · split at hturn
    · cases hturn
      dsimp only
      split
      · exact .inr ‹_›
      · exact .inl rfl
    · cases hturn

theorem Patient.turn {log : List Mark} (hpatient : Patient options log state)
    (hturn : turn options state event = some (next, kill)) :
    Patient options (log ++ (markOf options state event).toList) next := by
  intro worker hasked hpresent
  have hbefore := hpatient worker
  cases turn_cases hturn with
  | signal signo =>
    have hmark : markOf options state (.signal signo) = none := by simp [markOf, hturn]
    rw [hmark, Option.toList_none, List.append_nil]
    cases signo <;> exact hbefore hasked hpresent
  | moved hmoves =>
    cases hmoves with
    | @setDeadline now hcontrol =>
      rw [hcontrol] at hbefore
      obtain ⟨_, rfl, hsince⟩ := hbefore trivial hpresent
      exact ⟨[.read now], by simp [Control.seen],
        hsince.append (by simp [markOf]) (List.Sublist.refl _)⟩
    | early hcontrol hnow =>
      rw [hcontrol] at hbefore
      obtain ⟨_, rfl, hsince⟩ := hbefore trivial hpresent
      exact ⟨_, rfl, hsince.keep (by simp [markOf])⟩
    | expired hcontrol hnow =>
      rw [hcontrol] at hbefore
      obtain ⟨_, rfl, hsince⟩ := hbefore trivial hpresent
      refine ⟨_, ⟨_, _, rfl, ?_⟩, hsince.append (by simp [markOf]) (List.Sublist.refl _)⟩
      rwa [Int.sub_add_cancel, ← Int.not_lt]
    | graceIdle hcontrol hpid =>
      rw [hcontrol] at hbefore
      obtain ⟨_, rfl, hsince⟩ := hbefore trivial hpresent
      exact ⟨_, rfl, hsince.keep (by simp [markOf, hturn])⟩
    | _ => exact absurd hasked (by simp [Control.asked])
  | @signalled loop i hcontrol hi hstop =>
    rw [hcontrol] at hbefore
    dsimp only at hpresent ⊢
    rw [signalSlot_pid] at hpresent ⊢
    cases loop with
    | terminate =>
      rcases Nat.lt_succ_iff_lt_or_eq.mp hasked with hless | rfl
      · obtain ⟨_, rfl, hsince⟩ := hbefore hless hpresent
        exact ⟨_, rfl, hsince.keep (by simp [markOf, hturn])⟩
      · refine ⟨[], rfl, log, [], ?_, by simp, List.Sublist.refl _⟩
        simp [markOf, hturn, signalSlot_present hpresent, Sweep.signo]
    | kill =>
      obtain ⟨reads, hseen, hsince⟩ := hbefore trivial hpresent
      exact ⟨reads, hseen, hsince.keep (by simp [markOf, hturn])⟩
    | _ => exact absurd hasked (by simp [Control.asked])
  | @swept loop i hcontrol hstop =>
    cases loop with
    | terminate =>
      rw [hcontrol] at hbefore
      have hless : worker.val < i := by
        by_contra hle
        exact hstop ⟨by omega, by simp [Sweep.stop]; omega⟩
      obtain ⟨_, rfl, hsince⟩ := hbefore hless hpresent
      exact ⟨_, rfl, hsince.keep (by simp [markOf, hturn])⟩
    | _ => exact absurd hasked (by simp [Sweep.done, Control.asked])
  | graceReaped hcontrol hpid hpool =>
    rcases graceWait_next hcontrol hturn with hgrace | hnone
    · dsimp only at hgrace hpresent ⊢
      subst hgrace
      rw [hcontrol] at hbefore
      rw [hpool] at hpresent ⊢
      split at hpresent
      · exact absurd hpresent (Int.lt_irrefl 0)
      · rw [if_neg ‹_›]
        obtain ⟨_, rfl, hsince⟩ := hbefore trivial hpresent
        exact ⟨_, rfl, hsince.keep (by simp [markOf, hturn])⟩
    · exact absurd (hnone worker) (Int.not_le.mpr hpresent)
  | _ => exact absurd hasked (by simp [Control.asked])

/-- **No worker is killed before its time.** Whatever signals, exits and failures the run holds:
    a SIGKILL follows a failed initial fork, or it goes to a worker that was sent SIGTERM
    before, and between the two the clock was read twice, at least the grace period apart,
    and nothing was forked. -/
theorem killed_after_grace (options : Options) (shutdown reload : Bool) (children : Children)
    (events : List Event) (state next : State n)
    (hafter : after (step options) (start n shutdown reload children) events = some state)
    (event : Event) (pid : Int)
    (hkill : turn options state event = some (next, some ⟨pid, .sigkill⟩)) :
    (∃ failed i, state.control = .sweep (.abort failed) i) ∨
      ∃ begun now, SinceTerm pid [.read begun, .read now]
          (marks options (start n shutdown reload children) events) ∧
        begun + options.gracefulShutdownTimeoutSec ≤ now := by
  have hpatient : Patient options (marks options (start n shutdown reload children) events)
      state := by
    refine invariant (P := fun events state =>
      Patient options (marks options (start n shutdown reload children) events) state)
      (fun worker hasked => absurd hasked id) ?_ hafter
    intro events state event next hbefore hpatient hstep
    obtain ⟨⟨final, kill⟩, hturn, rfl⟩ := Option.map_eq_some_iff.mp hstep
    rw [marks, observed_snoc event hbefore]
    exact hpatient.turn hturn
  have hturn := turn_cases hkill
  generalize hcall : some (Kill.mk pid .sigkill) = kill at hturn
  cases hturn with
  | @signalled loop i hcontrol hi hstop =>
    by_cases hpresent : 0 < (state.pool ⟨i, hi⟩).pid
    · rw [signalSlot_present hpresent] at hcall
      cases loop with
      | abort failed => exact .inl ⟨failed, i, hcontrol⟩
      | kill =>
        have hsince := hpatient ⟨i, hi⟩ (hcontrol ▸ trivial) hpresent
        rw [hcontrol] at hsince
        obtain ⟨_, ⟨begun, now, rfl, hnow⟩, hsince⟩ := hsince
        cases hcall
        exact .inr ⟨begun, now, hsince, hnow⟩
      | _ => cases hcall
    · rw [signalSlot_empty hpresent] at hcall
      cases hcall
  | _ => cases hcall

theorem killed_after_grace_shutdown :
    ∃ state next : State 2,
      after (step .defaults) (start 2 false false .none) (shutdownEvents.take 13) = some state ∧
      turn .defaults state .next = some (next, some ⟨101, .sigkill⟩) ∧
      ∃ begun now, SinceTerm 101 [.read begun, .read now]
          (marks .defaults (start 2 false false .none) (shutdownEvents.take 13)) ∧
        begun + 30 ≤ now := by
  obtain ⟨state, next, hafter, hkill, hcontrol⟩ : ∃ state next : State 2,
      after (step .defaults) (start 2 false false .none) (shutdownEvents.take 13) = some state ∧
        turn .defaults state .next = some (next, some ⟨101, .sigkill⟩) ∧
        state.control = .sweep .kill 1 := ⟨_, _, rfl, rfl, rfl⟩
  refine ⟨state, next, hafter, hkill, ?_⟩
  refine (killed_after_grace _ _ _ _ _ state next hafter _ _ hkill).resolve_left ?_
  rintro ⟨failed, i, habort⟩
  cases hcontrol.symm.trans habort

end QuicproAsync.Cluster

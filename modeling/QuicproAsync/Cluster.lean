import Mathlib.Data.List.Basic
import Mathlib.Logic.Function.Basic
import QuicproAsync.Machine
import QuicproAsync.Processes

/-!
# The worker supervisor

`quicpro_cluster_orchestrate` and `master_supervisor_loop` of `cluster.c`: the master
forks its workers, restarts those that exit, ends them all on SIGTERM or SIGINT, and on
SIGHUP asks them to end for a reload.

The master is a machine. A state holds the worker pool, the two flags the signal handler
sets, the point the master has reached, and the kernel's table of its children. An event
is one thing that happens next: a signal arrives, the code runs on to its next call, or a
call returns, with what the kernel answered. Signals may arrive at any point. What the
kernel may answer is part of the machine: a wait reports a child that has not been reaped,
a fork gives a pid that no such child has. Every `kill` the master makes is reported by
the step that makes it.

The store into the pool that follows a fork belongs to the same step as the fork. The PHP
callbacks are taken to do nothing to processes, and `start_time` and `worker_id`, which
are written and never read, are left out.
-/

namespace QuicproAsync.Cluster

open Machine Processes

/-! ### Data -/

inductive Signal where
  | sigint
  | sigterm
  | sighup
  | sigkill
deriving DecidableEq, Repr

/-- `quicpro_worker_info_t`; the times are `time_t` seconds. -/
structure WorkerInfo where
  pid : Int
  restartCount : Int
  lastRestartTime : Int
  isExiting : Bool
deriving DecidableEq, Repr

/-- The fields of `quicpro_cluster_options_t` that the master reads. -/
structure Options where
  restartCrashedWorkers : Bool
  maxRestartsPerWorker : Int
  restartIntervalSec : Int
  gracefulShutdownTimeoutSec : Int
deriving DecidableEq, Repr

/-- What `parse_options_from_php` fills in; no PHP option overrides these four. -/
def Options.defaults : Options where
  restartCrashedWorkers := true
  maxRestartsPerWorker := 5
  restartIntervalSec := 60
  gracefulShutdownTimeoutSec := 30

/-- The four loops that send a signal to one slot after the other. -/
inductive Sweep where
  /-- The workers made so far, after a fork failed at the given index. -/
  | abort (failed : Nat)
  | reload
  | terminate
  | kill
deriving DecidableEq, Repr

def Sweep.signo : Sweep → Signal
  | .abort _ => .sigkill
  | .reload => .sigterm
  | .terminate => .sigterm
  | .kill => .sigkill

/-- The index the loop stops at, for a pool of `n` slots. -/
def Sweep.stop (n : Nat) : Sweep → Nat
  | .abort failed => failed
  | .reload => n
  | .terminate => n
  | .kill => n

/-- Where the master is. -/
inductive Control (n : Nat) where
  /-- Before the initial fork of worker `i`. -/
  | boot (i : Nat)
  | sweep (loop : Sweep) (i : Nat)
  /-- The test of `g_shutdown_request` at the head of the supervisor loop. -/
  | head
  /-- The test of `g_reload_request`. -/
  | poll
  /-- Before the `waitpid` of the supervisor loop. -/
  | wait
  /-- The worker of this slot has been reaped and its exit is to be handled. -/
  | exited (worker : Fin n)
  /-- A restart of this slot has been granted; the fork is next. -/
  | restart (worker : Fin n)
  /-- The shutdown deadline is to be computed. -/
  | deadline
  /-- The test of the clock in the graceful wait. -/
  | grace (deadline : Int)
  /-- Before the `waitpid` of the graceful wait. -/
  | graceWait (deadline : Int)
  | returned
deriving DecidableEq, Repr

structure State (n : Nat) where
  pool : Fin n → WorkerInfo
  shutdownRequest : Bool
  reloadRequest : Bool
  control : Control n
  children : Children

inductive Event where
  /-- `cluster_signal_handler` runs. -/
  | signal (signo : Signal)
  /-- The code runs on, through at most one `kill`. -/
  | next
  /-- `fork` gave a child, and the clock was read after it. -/
  | forked (pid now : Int)
  | forkFailed
  /-- `waitpid` returned. -/
  | waited (pid : Int)
  | time (now : Int)
deriving DecidableEq, Repr

structure Kill where
  pid : Int
  signo : Signal
deriving DecidableEq, Repr

/-! ### The steps -/

variable {n : Nat}

def clusterSignalHandler (signo : Signal) (state : State n) : State n :=
  match signo with
  | .sigint => { state with shutdownRequest := true }
  | .sigterm => { state with shutdownRequest := true }
  | .sighup => { state with reloadRequest := true }
  | .sigkill => state

def State.setSlot (state : State n) (worker : Fin n) (info : WorkerInfo) : State n :=
  { state with pool := Function.update state.pool worker info }

/-- The slot is marked as dead. -/
def State.emptySlot (state : State n) (worker : Fin n) : State n :=
  state.setSlot worker { state.pool worker with pid := 0 }

/-- The initial fork of worker `i`. -/
def bootStep (state : State n) (i : Nat) (event : Event) : Option (State n) :=
  match event with
  | .forked pid now =>
    if hi : i < n then
      if hfresh : state.children.Fresh pid then
        some { state.setSlot ⟨i, hi⟩ ⟨pid, 0, now, false⟩ with
          children := state.children.spawn pid hfresh
          control := .boot (i + 1) }
      else none
    else none
  | .forkFailed => if i < n then some { state with control := .sweep (.abort i) 0 } else none
  | .next => if i < n then none else some { state with control := .head }
  | _ => none

/-- The body of a signalling loop. Only the reload marks the worker as exiting. -/
def signalSlot (loop : Sweep) (state : State n) (worker : Fin n) : State n × Option Kill :=
  let info := state.pool worker
  if 0 < info.pid then
    ({ state.setSlot worker { info with isExiting := info.isExiting || loop = .reload } with
        children := if loop.signo = .sigkill then state.children.kill info.pid
          else state.children },
      some ⟨info.pid, loop.signo⟩)
  else (state, none)

theorem signalSlot_present {loop : Sweep} {state : State n} {worker : Fin n}
    (hpresent : 0 < (state.pool worker).pid) :
    signalSlot loop state worker =
      ({ state.setSlot worker { state.pool worker with
            isExiting := (state.pool worker).isExiting || loop = .reload } with
          children := if loop.signo = .sigkill then state.children.kill (state.pool worker).pid
            else state.children },
        some ⟨(state.pool worker).pid, loop.signo⟩) := if_pos hpresent

theorem signalSlot_empty {loop : Sweep} {state : State n} {worker : Fin n}
    (hempty : ¬ 0 < (state.pool worker).pid) : signalSlot loop state worker = (state, none) :=
  if_neg hempty

/-- What follows a signalling loop. -/
def Sweep.done (loop : Sweep) (state : State n) : State n :=
  match loop with
  | .abort _ => { state with control := .returned }
  | .reload => { state with reloadRequest := false, control := .wait }
  | .terminate => { state with control := .deadline }
  | .kill => { state with control := .returned }

def sweepStep (loop : Sweep) (state : State n) (i : Nat) (event : Event) :
    Option (State n × Option Kill) :=
  match event with
  | .next =>
    if hi : i < n ∧ i < loop.stop n then
      let (state, kill) := signalSlot loop state ⟨i, hi.1⟩
      some ({ state with control := .sweep loop (i + 1) }, kill)
    else some (loop.done state, none)
  | _ => none

/-- The first slot that holds the pid. -/
def findSlot (pool : Fin n → WorkerInfo) (pid : Int) : Option (Fin n) :=
  (List.finRange n).find? fun worker => (pool worker).pid = pid

def waitStep (state : State n) (event : Event) : Option (State n) :=
  match event with
  | .waited pid =>
    if pid ≤ 0 then some { state with control := .head }
    else if state.children.Unreaped pid then
      some { state with
        children := state.children.reap pid
        control := match findSlot state.pool pid with
          | some worker => .exited worker
          | none => .head }
    else none
  | _ => none

/-- The largest value of a C `int`. -/
def intMax : Int := 2147483647

/-- The restart count an exit at time `now` starts from: it is reset after a quiet interval. -/
def countBefore (options : Options) (info : WorkerInfo) (now : Int) : Int :=
  if options.restartIntervalSec < now - info.lastRestartTime then 0 else info.restartCount

/-- The restart counters after an exit at time `now`. The increment of the largest `int` is
    undefined, so there is no such step. -/
def countExit (options : Options) (info : WorkerInfo) (now : Int) : Option WorkerInfo :=
  if countBefore options info now < intMax then
    some { info with
      restartCount := countBefore options info now + 1
      lastRestartTime := now }
  else none

theorem countExit_eq {options : Options} {info counted : WorkerInfo} {now : Int}
    (hcount : countExit options info now = some counted) :
    counted = { info with
      restartCount := countBefore options info now + 1
      lastRestartTime := now } := by
  unfold countExit at hcount
  split at hcount
  · exact (Option.some.inj hcount).symm
  · cases hcount

/-- The test whether the exit of a worker is answered by a restart at all. -/
def restartWanted (options : Options) (state : State n) (worker : Fin n) : Bool :=
  options.restartCrashedWorkers && !(state.pool worker).isExiting && !state.shutdownRequest

def withinLimit (options : Options) (info : WorkerInfo) : Bool :=
  options.maxRestartsPerWorker < 0 || info.restartCount ≤ options.maxRestartsPerWorker

def exitedStep (options : Options) (state : State n) (worker : Fin n) (event : Event) :
    Option (State n) :=
  match event with
  | .next =>
    if restartWanted options state worker then none
    else some { state.emptySlot worker with control := .head }
  | .time now =>
    if restartWanted options state worker then
      match countExit options (state.pool worker) now with
      | none => none
      | some info =>
        if withinLimit options info then
          some { state.setSlot worker info with control := .restart worker }
        else some { state.setSlot worker { info with pid := 0 } with control := .head }
    else none
  | _ => none

def restartStep (state : State n) (worker : Fin n) (event : Event) : Option (State n) :=
  match event with
  | .forked pid _ =>
    if hfresh : state.children.Fresh pid then
      some { state.setSlot worker { state.pool worker with pid := pid } with
        children := state.children.spawn pid hfresh
        control := .head }
    else none
  | .forkFailed => some { state.emptySlot worker with control := .head }
  | _ => none

def graceWaitStep (state : State n) (deadline : Int) (event : Event) : Option (State n) :=
  match event with
  | .waited pid =>
    if pid ≤ 0 then some { state with control := .grace deadline }
    else if state.children.Unreaped pid then
      let pool := fun worker =>
        if (state.pool worker).pid = pid then { state.pool worker with pid := 0 }
        else state.pool worker
      some { state with
        pool := pool
        children := state.children.reap pid
        control := if ∀ worker, (pool worker).pid ≤ 0 then .sweep .kill 0
          else .grace deadline }
    else none
  | _ => none

/-- A step of the master that makes no `kill`. -/
def quietStep (options : Options) (state : State n) (event : Event) : Option (State n) :=
  match state.control, event with
  | .boot i, event => bootStep state i event
  | .head, .next =>
    some { state with
      control := if state.shutdownRequest then .sweep .terminate 0 else .poll }
  | .poll, .next =>
    some { state with control := if state.reloadRequest then .sweep .reload 0 else .wait }
  | .wait, event => waitStep state event
  | .exited worker, event => exitedStep options state worker event
  | .restart worker, event => restartStep state worker event
  | .deadline, .time now =>
    some { state with control := .grace (now + options.gracefulShutdownTimeoutSec) }
  | .grace deadline, .time now =>
    some { state with
      control := if now < deadline then .graceWait deadline else .sweep .kill 0 }
  | .graceWait deadline, event => graceWaitStep state deadline event
  | _, _ => none

/-- One step, and the `kill` it makes. -/
def turn (options : Options) (state : State n) (event : Event) :
    Option (State n × Option Kill) :=
  match event, state.control with
  | .signal signo, _ => some (clusterSignalHandler signo state, none)
  | event, .sweep loop i => sweepStep loop state i event
  | event, _ => (quietStep options state event).map fun next => (next, none)

def step (options : Options) (state : State n) (event : Event) : Option (State n) :=
  (turn options state event).map Prod.fst

/-- The state in which the initial forks begin: a zeroed pool, flags as earlier signals left
    them, and the children the process already has. -/
def start (n : Nat) (shutdownRequest reloadRequest : Bool) (children : Children) : State n where
  pool := fun _ => ⟨0, 0, 0, false⟩
  shutdownRequest := shutdownRequest
  reloadRequest := reloadRequest
  control := .boot 0
  children := children

/-! ### What a step can do -/

/-- The steps that only move the master to another point. -/
inductive Moves (options : Options) (state : State n) : Event → Control n → Prop where
  | startFailed {i : Nat} (hcontrol : state.control = .boot i) (hi : i < n) :
      Moves options state .forkFailed (.sweep (.abort i) 0)
  | booted {i : Nat} (hcontrol : state.control = .boot i) (hi : ¬ i < n) :
      Moves options state .next .head
  | shutdown (hcontrol : state.control = .head) (hrequest : state.shutdownRequest = true) :
      Moves options state .next (.sweep .terminate 0)
  | supervise (hcontrol : state.control = .head) (hrequest : state.shutdownRequest = false) :
      Moves options state .next .poll
  | reload (hcontrol : state.control = .poll) (hrequest : state.reloadRequest = true) :
      Moves options state .next (.sweep .reload 0)
  | noReload (hcontrol : state.control = .poll) (hrequest : state.reloadRequest = false) :
      Moves options state .next .wait
  | idle {pid : Int} (hcontrol : state.control = .wait) (hpid : pid ≤ 0) :
      Moves options state (.waited pid) .head
  | setDeadline {now : Int} (hcontrol : state.control = .deadline) :
      Moves options state (.time now) (.grace (now + options.gracefulShutdownTimeoutSec))
  | early {deadline now : Int} (hcontrol : state.control = .grace deadline)
      (hnow : now < deadline) : Moves options state (.time now) (.graceWait deadline)
  | expired {deadline now : Int} (hcontrol : state.control = .grace deadline)
      (hnow : ¬ now < deadline) : Moves options state (.time now) (.sweep .kill 0)
  | graceIdle {deadline pid : Int} (hcontrol : state.control = .graceWait deadline)
      (hpid : pid ≤ 0) : Moves options state (.waited pid) (.grace deadline)

/-- Every step, with what made it possible. -/
inductive Turn (options : Options) (state : State n) : Event → State n → Option Kill → Prop where
  | signal (signo : Signal) :
      Turn options state (.signal signo) (clusterSignalHandler signo state) none
  | moved {event : Event} {control : Control n} (hmoves : Moves options state event control) :
      Turn options state event { state with control := control } none
  | started {i : Nat} {pid now : Int} (hcontrol : state.control = .boot i) (hi : i < n)
      (hfresh : state.children.Fresh pid) :
      Turn options state (.forked pid now)
        { state.setSlot ⟨i, hi⟩ ⟨pid, 0, now, false⟩ with
          children := state.children.spawn pid hfresh
          control := .boot (i + 1) } none
  | signalled {loop : Sweep} {i : Nat} (hcontrol : state.control = .sweep loop i) (hi : i < n)
      (hstop : i < loop.stop n) :
      Turn options state .next
        { (signalSlot loop state ⟨i, hi⟩).1 with control := .sweep loop (i + 1) }
        (signalSlot loop state ⟨i, hi⟩).2
  | swept {loop : Sweep} {i : Nat} (hcontrol : state.control = .sweep loop i)
      (hstop : ¬ (i < n ∧ i < loop.stop n)) :
      Turn options state .next (loop.done state) none
  | stranger {pid : Int} (hcontrol : state.control = .wait) (hpid : 0 < pid)
      (hfind : findSlot state.pool pid = none) :
      Turn options state (.waited pid)
        { state with children := state.children.reap pid, control := .head } none
  | exited {pid : Int} {worker : Fin n} (hcontrol : state.control = .wait) (hpid : 0 < pid)
      (hfind : findSlot state.pool pid = some worker) :
      Turn options state (.waited pid)
        { state with children := state.children.reap pid, control := .exited worker } none
  | dropped {worker : Fin n} (hcontrol : state.control = .exited worker)
      (hwanted : restartWanted options state worker = false) :
      Turn options state .next { state.emptySlot worker with control := .head } none
  | limited {worker : Fin n} {now : Int} {info : WorkerInfo}
      (hcontrol : state.control = .exited worker)
      (hwanted : restartWanted options state worker = true)
      (hcount : countExit options (state.pool worker) now = some info)
      (hlimit : withinLimit options info = false) :
      Turn options state (.time now)
        { state.setSlot worker { info with pid := 0 } with control := .head } none
  | granted {worker : Fin n} {now : Int} {info : WorkerInfo}
      (hcontrol : state.control = .exited worker)
      (hwanted : restartWanted options state worker = true)
      (hcount : countExit options (state.pool worker) now = some info)
      (hlimit : withinLimit options info = true) :
      Turn options state (.time now)
        { state.setSlot worker info with control := .restart worker } none
  | restarted {worker : Fin n} {pid now : Int} (hcontrol : state.control = .restart worker)
      (hfresh : state.children.Fresh pid) :
      Turn options state (.forked pid now)
        { state.setSlot worker { state.pool worker with pid := pid } with
          children := state.children.spawn pid hfresh
          control := .head } none
  | restartFailed {worker : Fin n} (hcontrol : state.control = .restart worker) :
      Turn options state .forkFailed { state.emptySlot worker with control := .head } none
  | graceReaped {deadline pid : Int} {pool : Fin n → WorkerInfo} {control : Control n}
      (hcontrol : state.control = .graceWait deadline) (hpid : 0 < pid)
      (hpool : ∀ worker, pool worker = if (state.pool worker).pid = pid
        then { state.pool worker with pid := 0 } else state.pool worker)
      (hnext : control = .sweep .kill 0 ∨ control = .grace deadline) :
      Turn options state (.waited pid)
        { state with pool := pool, children := state.children.reap pid, control := control } none

variable {options : Options} {state next : State n} {event : Event} {kill : Option Kill}

theorem bootStep_cases {i : Nat} (hcontrol : state.control = .boot i)
    (hstep : bootStep state i event = some next) : Turn options state event next none := by
  unfold bootStep at hstep
  split at hstep
  · split at hstep
    · rename_i hi
      split at hstep
      · rename_i hfresh
        cases hstep
        exact .started hcontrol hi hfresh
      · cases hstep
    · cases hstep
  · split at hstep
    · rename_i hi
      cases hstep
      exact .moved (.startFailed hcontrol hi)
    · cases hstep
  · split at hstep
    · cases hstep
    · rename_i hi
      cases hstep
      exact .moved (.booted hcontrol hi)
  · cases hstep

theorem waitStep_cases (hcontrol : state.control = .wait)
    (hstep : waitStep state event = some next) : Turn options state event next none := by
  unfold waitStep at hstep
  split at hstep
  · split at hstep
    · rename_i hpid
      cases hstep
      exact .moved (.idle hcontrol hpid)
    · rename_i pid hpid
      split at hstep
      · cases hstep
        cases hfind : findSlot state.pool pid with
        | none => exact .stranger hcontrol (Int.not_le.mp hpid) hfind
        | some worker => exact .exited hcontrol (Int.not_le.mp hpid) hfind
      · cases hstep
  · cases hstep

theorem exitedStep_cases {worker : Fin n} (hcontrol : state.control = .exited worker)
    (hstep : exitedStep options state worker event = some next) :
    Turn options state event next none := by
  unfold exitedStep at hstep
  cases hwanted : restartWanted options state worker with
  | false =>
    simp only [hwanted] at hstep
    split at hstep
    · cases hstep
      exact .dropped hcontrol hwanted
    · cases hstep
    · cases hstep
  | true =>
    simp only [hwanted, if_true] at hstep
    split at hstep
    · cases hstep
    · split at hstep
      · cases hstep
      · rename_i info hcount
        split at hstep
        · rename_i hlimit
          cases hstep
          exact .granted hcontrol hwanted hcount hlimit
        · rename_i hlimit
          cases hstep
          exact .limited hcontrol hwanted hcount (Bool.not_eq_true _ ▸ hlimit)
    · cases hstep

theorem restartStep_cases {worker : Fin n} (hcontrol : state.control = .restart worker)
    (hstep : restartStep state worker event = some next) :
    Turn options state event next none := by
  unfold restartStep at hstep
  split at hstep
  · split at hstep
    · rename_i hfresh
      cases hstep
      exact .restarted hcontrol hfresh
    · cases hstep
  · cases hstep
    exact .restartFailed hcontrol
  · cases hstep

theorem graceWaitStep_cases {deadline : Int} (hcontrol : state.control = .graceWait deadline)
    (hstep : graceWaitStep state deadline event = some next) :
    Turn options state event next none := by
  unfold graceWaitStep at hstep
  split at hstep
  · split at hstep
    · rename_i hpid
      cases hstep
      exact .moved (.graceIdle hcontrol hpid)
    · rename_i hpid
      split at hstep
      · cases hstep
        refine .graceReaped hcontrol (Int.not_le.mp hpid) (fun worker => rfl) ?_
        split
        · exact Or.inl rfl
        · exact Or.inr rfl
      · cases hstep
  · cases hstep

theorem quietStep_cases (hstep : quietStep options state event = some next) :
    Turn options state event next none := by
  unfold quietStep at hstep
  split at hstep
  · exact bootStep_cases ‹_› hstep
  · rename_i hcontrol
    cases hstep
    refine .moved ?_
    split
    · rename_i hrequest
      exact .shutdown hcontrol hrequest
    · rename_i hrequest
      exact .supervise hcontrol (Bool.not_eq_true _ ▸ hrequest)
  · rename_i hcontrol
    cases hstep
    refine .moved ?_
    split
    · rename_i hrequest
      exact .reload hcontrol hrequest
    · rename_i hrequest
      exact .noReload hcontrol (Bool.not_eq_true _ ▸ hrequest)
  · exact waitStep_cases ‹_› hstep
  · exact exitedStep_cases ‹_› hstep
  · exact restartStep_cases ‹_› hstep
  · rename_i hcontrol
    cases hstep
    exact .moved (.setDeadline hcontrol)
  · rename_i hcontrol
    cases hstep
    refine .moved ?_
    split
    · rename_i hnow
      exact .early hcontrol hnow
    · rename_i hnow
      exact .expired hcontrol hnow
  · exact graceWaitStep_cases ‹_› hstep
  · cases hstep

theorem sweepStep_cases {loop : Sweep} {i : Nat} (hcontrol : state.control = .sweep loop i)
    (hstep : sweepStep loop state i event = some (next, kill)) :
    Turn options state event next kill := by
  unfold sweepStep at hstep
  split at hstep
  · split at hstep
    · rename_i hi
      cases hstep
      exact .signalled hcontrol hi.1 hi.2
    · rename_i hstop
      cases hstep
      exact .swept hcontrol hstop
  · cases hstep

theorem turn_cases (hturn : turn options state event = some (next, kill)) :
    Turn options state event next kill := by
  unfold turn at hturn
  split at hturn
  · cases hturn
    exact .signal _
  · exact sweepStep_cases ‹_› hturn
  · obtain ⟨final, hstep, hfinal⟩ := Option.map_eq_some_iff.mp hturn
    cases hfinal
    exact quietStep_cases hstep

theorem step_cases (hstep : step options state event = some next) :
    ∃ kill, Turn options state event next kill := by
  obtain ⟨⟨final, kill⟩, hturn, hfinal⟩ := Option.map_eq_some_iff.mp hstep
  cases hfinal
  exact ⟨kill, turn_cases hturn⟩

end QuicproAsync.Cluster

import QuicproAsync.Cluster

/-!
# The master signals its own workers and forgets none

The slots of the pool follow the kernel's table of children: in every state of every run a
slot holds the pid of a worker that has been forked and not reaped, no two slots hold the
same one, and each such worker has its slot. A slot whose worker has just been reaped is
the exception, until the exit is handled; no `kill` is made in between. When the function
returns, after a shutdown or after a failed fork, every worker has been reaped or has been
sent SIGKILL.
-/

namespace QuicproAsync.Cluster

open Machine Processes

variable {n : Nat}

/-! ### The invariant -/

/-- The slot whose exit is being handled. -/
def Control.handled : Control n → Option (Fin n)
  | .exited worker => some worker
  | .restart worker => some worker
  | _ => none

/-- The slots from this index on have never been filled. -/
def Control.filled : Control n → Option Nat
  | .boot i => some i
  | .sweep (.abort failed) _ => some failed
  | _ => none

/-- The workers of the slots before this index have been sent SIGKILL. -/
def Control.killed : Control n → Option Nat
  | .sweep (.abort _) i => some i
  | .sweep .kill i => some i
  | .returned => some n
  | _ => none

/-- The pids in the pool. A slot whose worker has been reaped counts as empty. -/
def State.slots (state : State n) (worker : Fin n) : Int :=
  if state.control.handled = some worker then 0 else (state.pool worker).pid

structure Sound (state : State n) : Prop where
  tracks : Tracks state.slots state.children
  handled : ∀ worker, state.control.handled = some worker → (state.pool worker).pid ≠ 0 ∧
    ∀ other, (state.pool other).pid = (state.pool worker).pid → other = worker
  unfilled : ∀ i, state.control.filled = some i →
    ∀ worker : Fin n, i ≤ worker → (state.pool worker).pid = 0
  swept : ∀ i, state.control.killed = some i →
    Swept state.slots (fun worker => i ≤ worker.val) state.children

variable {options : Options} {state next : State n} {event : Event} {kill : Option Kill}

theorem slots_of_idle (hidle : state.control.handled = none) (worker : Fin n) :
    state.slots worker = (state.pool worker).pid := by
  unfold State.slots
  rw [hidle]
  exact if_neg nofun

theorem slots_handled {worker : Fin n} (hhandled : state.control.handled = some worker) :
    state.slots worker = 0 := if_pos hhandled

theorem slots_of_ne {worker other : Fin n} (hhandled : state.control.handled = some worker)
    (hother : other ≠ worker) : state.slots other = (state.pool other).pid := by
  unfold State.slots
  rw [hhandled]
  exact if_neg fun hsame => hother (Option.some.inj hsame).symm

/-- Between two exits the invariant is about the pids alone. -/
theorem Sound.of_idle (hidle : next.control.handled = none)
    (htracks : Tracks (fun worker => (next.pool worker).pid) next.children)
    (hunfilled : ∀ i, next.control.filled = some i →
      ∀ worker : Fin n, i ≤ worker → (next.pool worker).pid = 0)
    (hswept : ∀ i, next.control.killed = some i →
      Swept (fun worker => (next.pool worker).pid) (fun worker => i ≤ worker.val)
        next.children) : Sound next := by
  have hslots : next.slots = fun worker => (next.pool worker).pid :=
    funext (slots_of_idle hidle)
  refine ⟨hslots ▸ htracks, ?_, hunfilled, hslots ▸ hswept⟩
  intro worker hhandled
  rw [hidle] at hhandled
  cases hhandled

theorem Sound.tracks_idle (hsound : Sound state) (hidle : state.control.handled = none) :
    Tracks (fun worker => (state.pool worker).pid) state.children :=
  funext (slots_of_idle hidle) ▸ hsound.tracks

variable {i : Nat}

theorem Sound.swept_idle (hsound : Sound state) (hidle : state.control.handled = none)
    (hkilled : state.control.killed = some i) :
    Swept (fun worker => (state.pool worker).pid) (fun worker => i ≤ worker.val)
      state.children :=
  funext (slots_of_idle hidle) ▸ hsound.swept i hkilled

/-! ### One step -/

variable {pid : Int}

theorem findSlot_none {pool : Fin n → WorkerInfo} (hfind : findSlot pool pid = none)
    (worker : Fin n) : (pool worker).pid ≠ pid := by
  intro hpid
  exact List.find?_eq_none.mp hfind worker (List.mem_finRange worker) (decide_eq_true hpid)

theorem findSlot_some {pool : Fin n → WorkerInfo} {worker : Fin n}
    (hfind : findSlot pool pid = some worker) : (pool worker).pid = pid := by
  have hfound := List.find?_some hfind
  exact of_decide_eq_true hfound

theorem Moves.idle_before {control : Control n} (hmoves : Moves options state event control) :
    state.control.handled = none := by
  cases hmoves <;> (rw [‹state.control = _›]; rfl)

theorem Moves.idle_after {control : Control n} (hmoves : Moves options state event control) :
    control.handled = none := by
  cases hmoves <;> rfl

theorem Moves.filled {control : Control n} (hmoves : Moves options state event control)
    (hfilled : control.filled = some i) : state.control.filled = some i := by
  cases hmoves with
  | startFailed hcontrol hi =>
    rw [hcontrol]
    exact hfilled
  | _ => cases hfilled

theorem Moves.killed {control : Control n} (hmoves : Moves options state event control)
    (hkilled : control.killed = some i) : i = 0 := by
  cases hmoves <;> cases hkilled <;> rfl

theorem Sound.signal (hsound : Sound state) (signo : Signal) :
    Sound (clusterSignalHandler signo state) := by
  cases signo <;> exact ⟨hsound.tracks, hsound.handled, hsound.unfilled, hsound.swept⟩

theorem Sound.moved (hsound : Sound state) {control : Control n}
    (hmoves : Moves options state event control) : Sound { state with control := control } := by
  have htracks := hsound.tracks_idle hmoves.idle_before
  refine .of_idle hmoves.idle_after htracks ?_ ?_
  · intro i hfilled
    exact hsound.unfilled i (hmoves.filled hfilled)
  · intro i hkilled
    rw [hmoves.killed hkilled]
    exact htracks.swept fun worker _ => Nat.zero_le _

/-- The pids in the pool after one slot has been overwritten. -/
theorem pids_setSlot (pool : Fin n → WorkerInfo) (worker : Fin n) (info : WorkerInfo) :
    (fun other => (Function.update pool worker info other).pid) =
      Function.update (fun other => (pool other).pid) worker info.pid := by
  funext other
  rcases eq_or_ne other worker with rfl | hother
  · rw [Function.update_self, Function.update_self]
  · rw [Function.update_of_ne hother, Function.update_of_ne hother]

theorem Sound.started (hsound : Sound state) {now : Int} (hcontrol : state.control = .boot i)
    (hi : i < n) (hfresh : state.children.Fresh pid) :
    Sound { state.setSlot ⟨i, hi⟩ ⟨pid, 0, now, false⟩ with
      children := state.children.spawn pid hfresh
      control := .boot (i + 1) } := by
  have hidle : state.control.handled = none := hcontrol ▸ rfl
  have hunfilled := hsound.unfilled i (hcontrol ▸ rfl)
  have htracks := (hsound.tracks_idle hidle).spawn (hunfilled ⟨i, hi⟩ (Nat.le_refl i)) hfresh
  refine .of_idle rfl ?_ ?_ nofun
  · exact (pids_setSlot state.pool ⟨i, hi⟩ ⟨pid, 0, now, false⟩).symm ▸ htracks
  · intro j hj worker hworker
    cases hj
    have hother : worker ≠ ⟨i, hi⟩ := by
      rintro rfl
      exact Nat.lt_irrefl i hworker
    show (Function.update state.pool _ _ worker).pid = 0
    rw [Function.update_of_ne hother]
    exact hunfilled worker (Nat.le_of_succ_le hworker)

/-! #### The signalling loops -/

theorem signalSlot_pid (loop : Sweep) (state : State n) (worker other : Fin n) :
    ((signalSlot loop state worker).1.pool other).pid = (state.pool other).pid := by
  by_cases hpresent : 0 < (state.pool worker).pid
  · rw [signalSlot_present hpresent]
    dsimp only [State.setSlot]
    rcases eq_or_ne other worker with rfl | hother
    · rw [Function.update_self]
    · rw [Function.update_of_ne hother]
  · rw [signalSlot_empty hpresent]

theorem signalSlot_tracks (loop : Sweep) {worker : Fin n} {pids : Fin n → Int}
    (htracks : Tracks pids state.children) :
    Tracks pids (signalSlot loop state worker).1.children := by
  by_cases hpresent : 0 < (state.pool worker).pid
  · rw [signalSlot_present hpresent]
    dsimp only
    split
    · exact htracks.kill _
    · exact htracks
  · rw [signalSlot_empty hpresent]
    exact htracks

variable {loop : Sweep}

theorem signalSlot_swept (hloop : loop.signo = .sigkill) {worker : Fin n}
    {due rest : Fin n → Prop}
    (hswept : Swept (fun worker => (state.pool worker).pid) due state.children)
    (hrest : ∀ other, due other → other = worker ∨ rest other) :
    Swept (fun worker => (state.pool worker).pid) rest
      (signalSlot loop state worker).1.children := by
  by_cases hpresent : 0 < (state.pool worker).pid
  · rw [signalSlot_present hpresent]
    dsimp only
    rw [if_pos hloop]
    exact hswept.kill hrest
  · rw [signalSlot_empty hpresent]
    refine hswept.skip ?_
    intro other hdue
    rcases hrest other hdue with rfl | hlater
    · exact Or.inl (Int.not_lt.mp hpresent)
    · exact Or.inr hlater

theorem killed_signo {j : Nat} (hkilled : (Control.sweep loop i : Control n).killed = some j) :
    loop.signo = .sigkill ∧ j = i := by
  cases loop <;> cases hkilled <;> exact ⟨rfl, rfl⟩

theorem killed_of_signo (hloop : loop.signo = .sigkill) (i : Nat) :
    (Control.sweep loop i : Control n).killed = some i := by
  cases loop <;> first | rfl | cases hloop

theorem filled_sweep (loop : Sweep) (i j : Nat) :
    (Control.sweep loop i : Control n).filled = (Control.sweep loop j : Control n).filled := by
  cases loop <;> rfl

theorem Sound.signalled (hsound : Sound state) (hcontrol : state.control = .sweep loop i)
    (hi : i < n) :
    Sound { (signalSlot loop state ⟨i, hi⟩).1 with control := .sweep loop (i + 1) } := by
  have hidle : state.control.handled = none := hcontrol ▸ rfl
  have hpids := funext (signalSlot_pid loop state ⟨i, hi⟩)
  refine .of_idle rfl ?_ ?_ ?_
  · exact hpids.symm ▸ signalSlot_tracks loop (hsound.tracks_idle hidle)
  · intro j hfilled worker hworker
    rw [signalSlot_pid]
    exact hsound.unfilled j (hcontrol ▸ filled_sweep loop i (i + 1) ▸ hfilled) worker hworker
  · intro j hkilled
    obtain ⟨hloop, rfl⟩ := killed_signo hkilled
    have hswept := hsound.swept_idle hidle (hcontrol ▸ killed_of_signo hloop i)
    refine hpids.symm ▸ signalSlot_swept hloop hswept ?_
    intro other hdue
    rcases Nat.lt_or_eq_of_le hdue with hlater | hhere
    · exact Or.inr hlater
    · exact Or.inl (Fin.ext hhere.symm)

theorem Sound.sweptAll (hsound : Sound state) (hcontrol : state.control = .sweep loop i)
    (hstop : ¬ (i < n ∧ i < loop.stop n)) :
    Sound (loop.done state) := by
  have hidle : state.control.handled = none := hcontrol ▸ rfl
  have htracks := hsound.tracks_idle hidle
  have hlast : ∀ worker : Fin n, i ≤ worker → loop.stop n ≤ worker := by
    intro worker hworker
    by_contra hbefore
    exact hstop ⟨Nat.lt_of_le_of_lt hworker worker.isLt,
      Nat.lt_of_le_of_lt hworker (Nat.not_le.mp hbefore)⟩
  cases loop with
  | reload => exact .of_idle rfl htracks nofun nofun
  | terminate => exact .of_idle rfl htracks nofun nofun
  | kill =>
    refine .of_idle rfl htracks nofun ?_
    intro j hkilled
    cases hkilled
    have hkilled : state.control.killed = some i := hcontrol ▸ rfl
    refine (hsound.swept_idle hidle hkilled).skip ?_
    intro worker hworker
    exact Or.inr (hlast worker hworker)
  | abort failed =>
    refine .of_idle rfl htracks nofun ?_
    intro j hkilled
    cases hkilled
    have hkilled : state.control.killed = some i := hcontrol ▸ rfl
    -- The slots from the failed fork on were never filled.
    refine (hsound.swept_idle hidle hkilled).skip ?_
    intro worker hworker
    have hempty := hsound.unfilled failed (hcontrol ▸ rfl) worker (hlast worker hworker)
    exact Or.inl (Int.le_of_eq hempty)

/-! #### Exits -/

theorem Sound.stranger (hsound : Sound state) (hcontrol : state.control = .wait)
    (hfind : findSlot state.pool pid = none) :
    Sound { state with children := state.children.reap pid, control := .head } := by
  refine .of_idle rfl ?_ nofun nofun
  have htracks := (hsound.tracks_idle (hcontrol ▸ rfl)).reap pid
  have hsame : (fun worker => if (state.pool worker).pid = pid then 0
      else (state.pool worker).pid) = fun worker => (state.pool worker).pid := by
    funext worker
    exact if_neg (findSlot_none hfind worker)
  exact hsame ▸ htracks

theorem Sound.exited (hsound : Sound state) {worker : Fin n} (hcontrol : state.control = .wait)
    (hpid : 0 < pid) (hfind : findSlot state.pool pid = some worker) :
    Sound { state with children := state.children.reap pid, control := .exited worker } := by
  have htracks := hsound.tracks_idle (hcontrol ▸ rfl)
  have hworker := findSlot_some hfind
  have hpresent : (state.pool worker).pid ≠ 0 := by
    rw [hworker]
    exact Int.ne_of_gt hpid
  have honly : ∀ other, (state.pool other).pid = (state.pool worker).pid → other = worker := by
    intro other hother
    exact (htracks.apart worker other hpresent hother.symm).symm
  refine ⟨?_, ?_, nofun, nofun⟩
  · have hslots : (fun other => if (state.pool other).pid = pid then 0
        else (state.pool other).pid) =
        State.slots { state with
          children := state.children.reap pid, control := .exited worker } := by
      funext other
      rcases eq_or_ne other worker with rfl | hother
      · rw [if_pos hworker, slots_handled rfl]
      · rw [if_neg fun hsame => hother (honly other (hsame.trans hworker.symm)),
          slots_of_ne rfl hother]
    exact hslots ▸ htracks.reap pid
  · intro other hhandled
    cases hhandled
    exact ⟨hpresent, honly⟩

/-- The slots other than the one being handled, which counts as empty. -/
theorem Sound.tracks_handled (hsound : Sound state) {worker : Fin n}
    (hhandled : state.control.handled = some worker) :
    Tracks (Function.update (fun other => (state.pool other).pid) worker 0) state.children := by
  have hslots : state.slots =
      Function.update (fun other => (state.pool other).pid) worker 0 := by
    funext other
    rcases eq_or_ne other worker with rfl | hother
    · rw [slots_handled hhandled, Function.update_self]
    · rw [slots_of_ne hhandled hother, Function.update_of_ne hother]
  exact hslots ▸ hsound.tracks

/-- An exit that is not answered by a restart leaves the slot empty. -/
theorem Sound.emptied (hsound : Sound state) {worker : Fin n} {info : WorkerInfo}
    (hhandled : state.control.handled = some worker) (hinfo : info.pid = 0) :
    Sound { state.setSlot worker info with control := .head } := by
  refine .of_idle rfl ?_ nofun nofun
  have htracks := hsound.tracks_handled hhandled
  rw [← hinfo] at htracks
  exact (pids_setSlot state.pool worker info).symm ▸ htracks

theorem Sound.granted (hsound : Sound state) {worker : Fin n} {info : WorkerInfo}
    (hcontrol : state.control = .exited worker) (hinfo : info.pid = (state.pool worker).pid) :
    Sound { state.setSlot worker info with control := .restart worker } := by
  have hhandled : state.control.handled = some worker := hcontrol ▸ rfl
  have hpids : ∀ other, (Function.update state.pool worker info other).pid =
      (state.pool other).pid := by
    intro other
    rcases eq_or_ne other worker with rfl | hother
    · rw [Function.update_self, hinfo]
    · rw [Function.update_of_ne hother]
  have hslots : State.slots { state.setSlot worker info with control := .restart worker } =
      state.slots := by
    funext other
    rcases eq_or_ne other worker with rfl | hother
    · rw [slots_handled hhandled, slots_handled rfl]
    · rw [slots_of_ne hhandled hother, slots_of_ne rfl hother]
      exact hpids other
  refine ⟨hslots ▸ hsound.tracks, ?_, nofun, nofun⟩
  intro same hsame
  cases hsame
  obtain ⟨hpresent, honly⟩ := hsound.handled worker hhandled
  constructor
  · exact (hpids worker).symm ▸ hpresent
  · intro other hother
    exact honly other (((hpids other).symm.trans hother).trans (hpids worker))

theorem Sound.restarted (hsound : Sound state) {worker : Fin n}
    (hcontrol : state.control = .restart worker) (hfresh : state.children.Fresh pid) :
    Sound { state.setSlot worker { state.pool worker with pid := pid } with
      children := state.children.spawn pid hfresh
      control := .head } := by
  refine .of_idle rfl ?_ nofun nofun
  have hempty := hsound.tracks_handled (hcontrol ▸ rfl : state.control.handled = some worker)
  have htracks := hempty.spawn (Function.update_self worker 0 _) hfresh
  rw [Function.update_idem] at htracks
  exact (pids_setSlot state.pool worker { state.pool worker with pid := pid }).symm ▸ htracks

theorem Sound.graceReaped (hsound : Sound state) {deadline : Int} {pool : Fin n → WorkerInfo}
    {control : Control n} (hcontrol : state.control = .graceWait deadline)
    (hpool : ∀ worker, pool worker = if (state.pool worker).pid = pid
      then { state.pool worker with pid := 0 } else state.pool worker)
    (hnext : control = .sweep .kill 0 ∨ control = .grace deadline) :
    Sound { state with
      pool := pool, children := state.children.reap pid, control := control } := by
  have hpids : (fun worker => if (state.pool worker).pid = pid then 0
      else (state.pool worker).pid) = fun worker => (pool worker).pid := by
    funext worker
    rw [hpool]
    split <;> rfl
  have htracks := hpids ▸ (hsound.tracks_idle (hcontrol ▸ rfl)).reap pid
  rcases hnext with rfl | rfl
  · refine .of_idle rfl htracks nofun ?_
    intro i hkilled
    cases hkilled
    exact htracks.swept fun worker _ => Nat.zero_le _
  · exact .of_idle rfl htracks nofun nofun

theorem Sound.turn (hsound : Sound state) (hturn : Turn options state event next kill) :
    Sound next := by
  cases hturn with
  | signal signo => exact hsound.signal signo
  | moved hmoves => exact hsound.moved hmoves
  | started hcontrol hi hfresh => exact hsound.started hcontrol hi hfresh
  | signalled hcontrol hi hstop => exact hsound.signalled hcontrol hi
  | swept hcontrol hstop => exact hsound.sweptAll hcontrol hstop
  | stranger hcontrol hpid hfind => exact hsound.stranger hcontrol hfind
  | exited hcontrol hpid hfind => exact hsound.exited hcontrol hpid hfind
  | dropped hcontrol hwanted => exact hsound.emptied (hcontrol ▸ rfl) rfl
  | limited hcontrol hwanted hcount hlimit => exact hsound.emptied (hcontrol ▸ rfl) rfl
  | granted hcontrol hwanted hcount hlimit =>
    exact hsound.granted hcontrol (countExit_eq hcount ▸ rfl)
  | restarted hcontrol hfresh => exact hsound.restarted hcontrol hfresh
  | restartFailed hcontrol => exact hsound.emptied (hcontrol ▸ rfl) rfl
  | graceReaped hcontrol hpid hpool hnext => exact hsound.graceReaped hcontrol hpool hnext

/-! ### Whole runs -/

/-- The children the process has before the call, none of them a worker. -/
def Inherited (children : Children) : Prop := ∀ process ∈ children.table, process.own = false

theorem Sound.start {shutdown reload : Bool} {children : Children}
    (hinherited : Inherited children) : Sound (start n shutdown reload children) := by
  refine .of_idle rfl (.of_empty (fun _ => rfl) hinherited) ?_ nofun
  intro i _ worker _
  rfl

theorem sound_after {shutdown reload : Bool} {children : Children} {events : List Event}
    (hinherited : Inherited children)
    (hafter : after (step options) (start n shutdown reload children) events = some state) :
    Sound state := by
  refine invariant (P := fun _ => Sound) (Sound.start hinherited) ?_ hafter
  intro events state event next _ hsound hstep
  obtain ⟨kill, hturn⟩ := step_cases hstep
  exact hsound.turn hturn

/-! ### What the invariant says -/

theorem Sound.apart (hsound : Sound state) {worker other : Fin n}
    (hpresent : (state.pool worker).pid ≠ 0)
    (hsame : (state.pool worker).pid = (state.pool other).pid) : worker = other := by
  cases hhandled : state.control.handled with
  | none => exact (hsound.tracks_idle hhandled).apart worker other hpresent hsame
  | some here =>
    obtain ⟨-, honly⟩ := hsound.handled here hhandled
    rcases eq_or_ne worker here with rfl | hworker
    · exact (honly other hsame.symm).symm
    · rcases eq_or_ne other here with rfl | hother
      · exact honly worker hsame
      · rw [← slots_of_ne hhandled hworker] at hpresent hsame
        rw [← slots_of_ne hhandled hother] at hsame
        exact hsound.tracks.apart worker other hpresent hsame

theorem Sound.in_one_slot (hsound : Sound state) (hown : state.children.Own pid) :
    ∃! worker, (state.pool worker).pid = pid := by
  obtain ⟨worker, hworker⟩ := hsound.tracks.found pid hown
  have hpid : (state.pool worker).pid = pid := by
    unfold State.slots at hworker
    split at hworker
    · exact absurd hworker (Int.ne_of_lt hown.pos)
    · exact hworker
  refine ⟨worker, hpid, ?_⟩
  intro other hother
  have hpresent : (state.pool other).pid ≠ 0 := hother ▸ Int.ne_of_gt hown.pos
  exact hsound.apart hpresent (hother.trans hpid.symm)

theorem Sound.kill_own (hsound : Sound state) {call : Kill}
    (hturn : Turn options state event next (some call)) : state.children.Own call.pid := by
  generalize hkill : some call = kill at hturn
  cases hturn with
  | signalled hcontrol hi hstop =>
    by_cases hpresent : 0 < (state.pool ⟨_, hi⟩).pid
    · rw [signalSlot_present hpresent] at hkill
      cases hkill
      have htracks := hsound.tracks_idle (hcontrol ▸ rfl)
      exact htracks.own ⟨_, hi⟩ (Int.ne_of_gt hpresent)
    · rw [signalSlot_empty hpresent] at hkill
      cases hkill
  | _ => cases hkill

theorem Sound.settled (hsound : Sound state) (hreturned : state.control = .returned) :
    ∀ process ∈ state.children.table, process.own = true →
      process.reaped = true ∨ process.killed = true := by
  have hswept := hsound.swept n (hreturned ▸ rfl)
  exact hswept.settled fun worker => Nat.not_le.mpr worker.isLt

/-- In every state of every run: a `kill` made there goes to a worker that was forked and has
    not been reaped, no two slots hold the same pid, and every worker that was forked and
    not reaped is in exactly one slot; and once the function has returned, every worker it
    ever forked has been reaped or sent SIGKILL. -/
theorem only_own_workers_signalled (options : Options) (shutdown reload : Bool)
    (children : Children) (hinherited : Inherited children) (events : List Event)
    (state : State n)
    (hafter : after (step options) (start n shutdown reload children) events = some state) :
    (∀ event next call, turn options state event = some (next, some call) →
      state.children.Own call.pid) ∧
    (∀ worker other, (state.pool worker).pid ≠ 0 →
      (state.pool worker).pid = (state.pool other).pid → worker = other) ∧
    (∀ pid, state.children.Own pid → ∃! worker, (state.pool worker).pid = pid) ∧
    (state.control = .returned → ∀ process ∈ state.children.table, process.own = true →
      process.reaped = true ∨ process.killed = true) := by
  have hsound := sound_after hinherited hafter
  refine ⟨?_, ?_, ?_, hsound.settled⟩
  · intro event next call hturn
    exact hsound.kill_own (turn_cases hturn)
  · intro worker other
    exact hsound.apart
  · intro pid
    exact hsound.in_one_slot

/-- A shutdown in which one worker ends in time and the other has to be killed. -/
def shutdownEvents : List Event :=
  [.forked 100 0, .forked 101 0, .next, .signal .sigterm, .next, .next, .next, .next,
    .time 10, .time 11, .waited 100, .time 40, .next, .next, .next]

theorem only_own_workers_signalled_shutdown :
    ∃ state : State 2, after (step .defaults) (start 2 false false .none) shutdownEvents =
        some state ∧ state.control = .returned ∧
      ∀ process ∈ state.children.table, process.own = true →
        process.reaped = true ∨ process.killed = true := by
  obtain ⟨state, hafter, hreturned⟩ : ∃ state : State 2,
      after (step .defaults) (start 2 false false .none) shutdownEvents = some state ∧
        state.control = .returned := ⟨_, rfl, rfl⟩
  have hall := only_own_workers_signalled .defaults false false .none nofun _ state hafter
  exact ⟨state, hafter, hreturned, hall.2.2.2 hreturned⟩

end QuicproAsync.Cluster

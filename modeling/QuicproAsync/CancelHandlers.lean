import QuicproAsync.Machine
import QuicproAsync.PhpValue

/-!
# Handlers for cancelled requests

`quicpro_server_on_cancel` stores a callable with a stream, and
`quicpro_internal_invoke_cancel_handler` calls it when the client resets the stream. Both are in
`cancel.c`. The callable is user code: while it runs, it may register another handler, and the
event loop that it drives may find the same stream reset again.

`quicpro_internal_invoke_cancel_handler` forgets the callable after the call, not before. Until
then the stream still has it, so a second reset calls it again; and what is forgotten in the end
is whatever the stream has by then.

A run is a sequence of three events: a registration, a reset, and the return of the callable that
was called last. Between a reset and the return that belongs to it lies what the callable does. The
registrations are numbered, and lists of what was called and of what was replaced are kept beside
the state.
-/

namespace QuicproAsync.CancelHandlers

open Php Machine

/-! ### Streams -/

/-- A callable, with the number of its registration. -/
structure Handler where
  number : Nat
  callable : Zval

/-- The fields of `quicpro_stream_t` for the handler. What is stored of the callable is none for
    `IS_UNDEF`. -/
structure Stream where
  hasCancelHandler : Bool
  cancelFci : Option Handler
  stored : hasCancelHandler = cancelFci.isSome

namespace Stream

def bare : Stream := ⟨false, none, rfl⟩

def setHandler (_stream : Stream) (handler : Handler) : Stream := ⟨true, some handler, rfl⟩

/-- The handler that is called, if there is one. -/
def handlerToCall (stream : Stream) : Option Handler :=
  if !stream.hasCancelHandler then none else stream.cancelFci

/-- What `quicpro_internal_invoke_cancel_handler` does after the call. -/
def cleanUp (_stream : Stream) : Stream := ⟨false, none, rfl⟩

@[simp] theorem handlerToCall_eq (stream : Stream) : stream.handlerToCall = stream.cancelFci := by
  rw [handlerToCall, stream.stored]
  cases stream.cancelFci <;> rfl

end Stream

/-- The streams by their ids. -/
structure Session where
  streams : BitVec 64 → Option Stream

namespace Session

/-- The handler that is registered for a stream. -/
def current (session : Session) (streamId : BitVec 64) : Option Handler :=
  (session.streams streamId).bind Stream.cancelFci

def update (session : Session) (streamId : BitVec 64) (stream : Stream) : Session :=
  ⟨Function.update session.streams streamId (some stream)⟩

theorem current_update (session : Session) (streamId other : BitVec 64) (stream : Stream) :
    (session.update streamId stream).current other =
      if other = streamId then stream.cancelFci else session.current other := by
  change (Function.update session.streams streamId (some stream) other).bind Stream.cancelFci = _
  rw [Function.update_apply]
  split
  · rfl
  · rfl

end Session

/-! ### The two functions -/

def quicproServerOnCancel (session : Option Session) (streamId : BitVec 64) (handler : Handler) :
    Except Bytes Session :=
  match session with
  | none => .error (ascii "Invalid session resource provided.")
  | some session =>
    match session.streams streamId with
    | none =>
      .error (ascii "Stream with ID " ++ ascii (toString streamId.toInt) ++
        ascii " not found in the current session.")
    | some stream => .ok (session.update streamId (stream.setHandler handler))

/-- `quicpro_internal_invoke_cancel_handler` up to the call: the handler, if one is called. -/
def beginInvoke (session : Session) (streamId : BitVec 64) : Option Handler :=
  (session.streams streamId).bind Stream.handlerToCall

/-- `quicpro_internal_invoke_cancel_handler` after the call. -/
def endInvoke (session : Session) (streamId : BitVec 64) : Session :=
  match session.streams streamId with
  | none => session
  | some stream => session.update streamId stream.cleanUp

@[simp] theorem beginInvoke_eq (session : Session) (streamId : BitVec 64) :
    beginInvoke session streamId = session.current streamId := by
  rw [beginInvoke, Session.current]
  cases session.streams streamId with
  | none => rfl
  | some stream => exact stream.handlerToCall_eq

theorem current_endInvoke (session : Session) (streamId other : BitVec 64) :
    (endInvoke session streamId).current other =
      if other = streamId then none else session.current other := by
  rw [endInvoke]
  cases hstream : session.streams streamId with
  | some stream => exact session.current_update streamId other stream.cleanUp
  | none =>
    by_cases hsame : other = streamId
    · rw [if_pos hsame, hsame, Session.current, hstream, Option.bind_none]
    · rw [if_neg hsame]

/-! ### Runs -/

/-- A call of a handler that has not returned. -/
structure Invocation where
  streamId : BitVec 64
  /-- The number of registrations before it. -/
  since : Nat

structure State where
  session : Session
  /-- The innermost invocation comes first. -/
  running : List Invocation
  /-- The number of registrations. -/
  registered : Nat
  /-- The calls, each with its argument. -/
  calls : List (Handler × BitVec 64)
  /-- The registrations that a later one has taken the place of. -/
  replaced : List Nat

inductive Event where
  | onCancel (streamId : BitVec 64) (callable : Zval)
  | reset (streamId : BitVec 64)
  | returned (streamId : BitVec 64)

namespace State

/-- A handler was registered, and the session is the given one now. -/
def register (state : State) (session : Session) (streamId : BitVec 64) : State :=
  { state with
    session
    registered := state.registered + 1
    replaced := state.replaced ++
      ((state.session.current streamId).map Handler.number).toList }

/-- A handler is called with the id of its stream. -/
def call (state : State) (handler : Handler) (streamId : BitVec 64) : State :=
  { state with
    running := ⟨streamId, state.registered⟩ :: state.running
    calls := state.calls ++ [(handler, streamId)] }

/-- The innermost invocation returns, and those around it are left. -/
def finish (state : State) (streamId : BitVec 64) (rest : List Invocation) : State :=
  { state with session := endInvoke state.session streamId, running := rest }

end State

def step (state : State) : Event → Option State
  | .onCancel streamId callable =>
    match quicproServerOnCancel (some state.session) streamId ⟨state.registered, callable⟩ with
    | .error _ => some state
    | .ok session => some (state.register session streamId)
  | .reset streamId =>
    match beginInvoke state.session streamId with
    | none => some state
    | some handler => some (state.call handler streamId)
  | .returned streamId =>
    match state.running with
    | [] => none
    | invocation :: rest =>
      if invocation.streamId = streamId then some (state.finish streamId rest) else none

/-- The given streams are open, and none has a handler. -/
def start (opened : BitVec 64 → Bool) : State where
  session := ⟨fun streamId => if opened streamId then some .bare else none⟩
  running := []
  registered := 0
  calls := []
  replaced := []

/-! ### What is expected of the handlers -/

/-- The numbers of the registrations that were called. -/
def State.called (state : State) : List Nat := state.calls.map fun call => call.1.number

def State.Registered (state : State) (number : Nat) : Prop :=
  ∃ streamId, ∃ handler ∈ state.session.current streamId, handler.number = number

/-- The registration has been called, has been replaced or is still there. -/
def State.Accounted (state : State) (number : Nat) : Prop :=
  number ∈ state.called ∨ number ∈ state.replaced ∨ state.Registered number

/-- When an invocation returns, what was registered during it is accounted for. -/
def KeptAtReturn (state : State) (event : Event) (next : State) : Prop :=
  ∀ invocation ∈ state.running.head?, event = .returned invocation.streamId →
    ∀ number, invocation.since ≤ number → number < state.registered → next.Accounted number

/-- **Handlers run at most once and are never lost.** -/
structure HandlersKept (opened : BitVec 64 → Bool) (events : List Event) (final : State) :
    Prop where
  once : final.called.Nodup
  kept : EachStep step KeptAtReturn (start opened) events

/-! ### What an event does -/

/-- The effects of an event. -/
inductive Moves (state : State) : Event → State → Prop where
  | unknown {streamId : BitVec 64} {callable : Zval}
      (hstream : state.session.streams streamId = none) :
      Moves state (.onCancel streamId callable) state
  | registers {streamId : BitVec 64} {callable : Zval} {stream : Stream}
      (hstream : state.session.streams streamId = some stream) :
      Moves state (.onCancel streamId callable)
        (state.register (state.session.update streamId
          (stream.setHandler ⟨state.registered, callable⟩)) streamId)
  | ignores {streamId : BitVec 64} (hnone : state.session.current streamId = none) :
      Moves state (.reset streamId) state
  | calls {streamId : BitVec 64} {handler : Handler}
      (hsome : state.session.current streamId = some handler) :
      Moves state (.reset streamId) (state.call handler streamId)
  | returns {invocation : Invocation} {rest : List Invocation}
      (hrunning : state.running = invocation :: rest) :
      Moves state (.returned invocation.streamId) (state.finish invocation.streamId rest)

variable {state next final : State} {event : Event} {events : List Event}
variable {opened : BitVec 64 → Bool}

theorem moves_of_step (hstep : step state event = some next) : Moves state event next := by
  cases event with
  | onCancel streamId callable =>
    rw [step, quicproServerOnCancel] at hstep
    cases hstream : state.session.streams streamId with
    | none =>
      rw [hstream] at hstep
      cases hstep
      exact .unknown hstream
    | some stream =>
      rw [hstream] at hstep
      cases hstep
      exact .registers hstream
  | reset streamId =>
    rw [step, beginInvoke_eq] at hstep
    cases hcurrent : state.session.current streamId with
    | none =>
      rw [hcurrent] at hstep
      cases hstep
      exact .ignores hcurrent
    | some handler =>
      rw [hcurrent] at hstep
      cases hstep
      exact .calls hcurrent
  | returned streamId =>
    rw [step] at hstep
    cases hrunning : state.running with
    | nil =>
      rw [hrunning] at hstep
      cases hstep
    | cons invocation rest =>
      rw [hrunning] at hstep
      obtain ⟨rfl, hnext⟩ := Option.ite_none_right_eq_some.mp hstep
      cases hnext
      exact .returns hrunning

/-! ### What holds in every state -/

/-- The numbers tell the registrations apart, and a handler that a stream has got during an
    invocation of its own has a number from then on. -/
structure State.Consistent (state : State) : Prop where
  number_lt : ∀ streamId, ∀ handler ∈ state.session.current streamId,
    handler.number < state.registered
  distinct : ∀ first second, ∀ left ∈ state.session.current first,
    ∀ right ∈ state.session.current second, left.number = right.number → first = second
  called_lt : ∀ number ∈ state.called, number < state.registered
  not_replaced : ∀ streamId, ∀ handler ∈ state.session.current streamId,
    handler.number ∉ state.replaced
  replaced_lt : ∀ number ∈ state.replaced, number < state.registered
  since_le : ∀ invocation ∈ state.running, invocation.since ≤ state.registered
  since_le_number : ∀ invocation ∈ state.running,
    ∀ handler ∈ state.session.current invocation.streamId,
      handler.number ∉ state.called → invocation.since ≤ handler.number

theorem consistent_start (opened : BitVec 64 → Bool) : (start opened).Consistent := by
  have hnone : ∀ streamId, (start opened).session.current streamId = none := by
    intro streamId
    change (if opened streamId then some Stream.bare else none).bind Stream.cancelFci = none
    cases opened streamId <;> rfl
  constructor
  case number_lt => simp [hnone]
  case distinct => simp [hnone]
  case not_replaced => simp [hnone]
  all_goals simp [start, State.called]

variable {streamId : BitVec 64}

/-- What a registration takes the place of. -/
theorem mem_replaced_register {session : Session} {number : Nat} :
    number ∈ (state.register session streamId).replaced ↔ number ∈ state.replaced ∨
      ∃ handler, state.session.current streamId = some handler ∧ handler.number = number := by
  rw [State.register, List.mem_append, Option.mem_toList, Option.map_eq_some_iff]

/-- The new handler is that of its stream, and the other streams keep theirs. -/
theorem current_setHandler {session : Session} {other : BitVec 64} {stream : Stream}
    {new handler : Handler}
    (hcurrent : (session.update streamId (stream.setHandler new)).current other = some handler) :
    (other = streamId ∧ handler = new) ∨
      (other ≠ streamId ∧ session.current other = some handler) := by
  rw [Session.current_update] at hcurrent
  split at hcurrent
  · next hsame =>
      cases hcurrent
      exact Or.inl ⟨hsame, rfl⟩
  · next hother => exact Or.inr ⟨hother, hcurrent⟩

theorem consistent_registers (hconsistent : state.Consistent) {callable : Zval} {stream : Stream} :
    (state.register (state.session.update streamId
      (stream.setHandler ⟨state.registered, callable⟩)) streamId).Consistent := by
  have hreplaced : ∀ number ∈ (state.register (state.session.update streamId
      (stream.setHandler ⟨state.registered, callable⟩)) streamId).replaced,
      number < state.registered := by
    intro number hnumber
    rcases mem_replaced_register.mp hnumber with hbefore | ⟨handler, hhandler, rfl⟩
    · exact hconsistent.replaced_lt number hbefore
    · exact hconsistent.number_lt streamId handler hhandler
  refine ⟨?_, ?_, ?_, ?_, ?_, ?_, ?_⟩
  · intro other handler hhandler
    rcases current_setHandler hhandler with ⟨-, rfl⟩ | ⟨-, hbefore⟩
    · exact Nat.lt_succ_self _
    · exact Nat.lt_succ_of_lt (hconsistent.number_lt other handler hbefore)
  · intro first second left hleft right hright hsame
    rcases current_setHandler hleft with ⟨hfirst, rfl⟩ | ⟨-, hbefore⟩
    · rcases current_setHandler hright with ⟨hsecond, -⟩ | ⟨-, hbefore'⟩
      · exact hfirst.trans hsecond.symm
      · have hlt := hconsistent.number_lt second right hbefore'
        exact absurd (hsame ▸ hlt) (Nat.lt_irrefl _)
    · rcases current_setHandler hright with ⟨-, rfl⟩ | ⟨-, hbefore'⟩
      · have hlt := hconsistent.number_lt first left hbefore
        exact absurd (hsame ▸ hlt) (Nat.lt_irrefl _)
      · exact hconsistent.distinct first second left hbefore right hbefore' hsame
  · intro number hnumber
    exact Nat.lt_succ_of_lt (hconsistent.called_lt number hnumber)
  · intro other handler hhandler hmem
    rcases current_setHandler hhandler with ⟨-, rfl⟩ | ⟨hother, hbefore⟩
    · exact Nat.lt_irrefl _ (hreplaced state.registered hmem)
    · rcases mem_replaced_register.mp hmem with hlong | ⟨old, hold, hsame⟩
      · exact hconsistent.not_replaced other handler hbefore hlong
      · exact hother (hconsistent.distinct other streamId handler hbefore old hold hsame.symm)
  · intro number hnumber
    exact Nat.lt_succ_of_lt (hreplaced number hnumber)
  · intro invocation hrunning
    exact Nat.le_succ_of_le (hconsistent.since_le invocation hrunning)
  · intro invocation hrunning handler hhandler hnot
    rcases current_setHandler hhandler with ⟨-, rfl⟩ | ⟨-, hbefore⟩
    · exact hconsistent.since_le invocation hrunning
    · exact hconsistent.since_le_number invocation hrunning handler hbefore hnot

theorem mem_called_call {handler : Handler} {number : Nat} :
    number ∈ (state.call handler streamId).called ↔
      number ∈ state.called ∨ number = handler.number := by
  simp [State.called, State.call]

theorem consistent_calls (hconsistent : state.Consistent) {handler : Handler}
    (hsome : state.session.current streamId = some handler) :
    (state.call handler streamId).Consistent := by
  refine ⟨hconsistent.number_lt, hconsistent.distinct, ?_, hconsistent.not_replaced,
    hconsistent.replaced_lt, ?_, ?_⟩
  · intro number hnumber
    rcases mem_called_call.mp hnumber with hbefore | rfl
    · exact hconsistent.called_lt number hbefore
    · exact hconsistent.number_lt streamId handler hsome
  · intro invocation hrunning
    rcases List.mem_cons.mp hrunning with rfl | hbefore
    · exact Nat.le_refl _
    · exact hconsistent.since_le invocation hbefore
  · intro invocation hrunning other hother hnot
    have hnot' := not_or.mp (mt mem_called_call.mpr hnot)
    rcases List.mem_cons.mp hrunning with rfl | hbefore
    · -- the handler of this stream has just been called
      cases hsome.symm.trans hother
      exact absurd rfl hnot'.2
    · exact hconsistent.since_le_number invocation hbefore other hother hnot'.1

theorem consistent_returns (hconsistent : state.Consistent) {invocation : Invocation}
    {rest : List Invocation} (hrunning : state.running = invocation :: rest) :
    (state.finish invocation.streamId rest).Consistent := by
  have hkept : ∀ other, ∀ handler ∈ (endInvoke state.session invocation.streamId).current other,
      handler ∈ state.session.current other := by
    intro other handler hhandler
    rw [current_endInvoke] at hhandler
    exact (Option.ite_none_left_eq_some.mp hhandler).2
  have hrest : ∀ other ∈ rest, other ∈ state.running :=
    fun other hother => hrunning ▸ List.mem_cons_of_mem invocation hother
  refine ⟨?_, ?_, hconsistent.called_lt, ?_, hconsistent.replaced_lt, ?_, ?_⟩
  · intro other handler hhandler
    exact hconsistent.number_lt other handler (hkept other handler hhandler)
  · intro first second left hleft right hright
    exact hconsistent.distinct first second left (hkept first left hleft) right
      (hkept second right hright)
  · intro other handler hhandler
    exact hconsistent.not_replaced other handler (hkept other handler hhandler)
  · intro other hother
    exact hconsistent.since_le other (hrest other hother)
  · intro other hother handler hhandler
    exact hconsistent.since_le_number other (hrest other hother) handler
      (hkept other.streamId handler hhandler)

theorem consistent_after (hafter : after step (start opened) events = some final) :
    final.Consistent := by
  refine invariant (P := fun _ state => state.Consistent) (consistent_start opened) ?_ hafter
  intro _ state event next _ hconsistent hstep
  cases moves_of_step hstep with
  | unknown _ => exact hconsistent
  | registers hstream => exact consistent_registers hconsistent
  | ignores _ => exact hconsistent
  | calls hsome => exact consistent_calls hconsistent hsome
  | returns hrunning => exact consistent_returns hconsistent hrunning

end QuicproAsync.CancelHandlers

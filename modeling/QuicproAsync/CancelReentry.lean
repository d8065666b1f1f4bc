import QuicproAsync.CancelHandlers

/-!
# Handlers that are entered again

What happens to a stream is a sequence of registrations, resets and returns, and it takes the
stream through three phases: it has no handler, one that is to be called, or one that is running.
Two things can go wrong. A stream is reset while its handler is running, and the handler is called
again; or a handler registers another one for its stream and returns, and the new one is forgotten.
Both show as a pattern in the sequence.
-/

namespace QuicproAsync.CancelHandlers

open Php Machine

/-! ### The history of a stream -/

inductive Kind where
  | onCancel
  | reset
  | returned
deriving DecidableEq

def Event.streamId : Event → BitVec 64
  | .onCancel streamId _ | .reset streamId | .returned streamId => streamId

def Event.kind : Event → Kind
  | .onCancel _ _ => .onCancel
  | .reset _ => .reset
  | .returned _ => .returned

/-- What happens to a stream. -/
def history (streamId : BitVec 64) (events : List Event) : List Kind :=
  (events.filter (·.streamId = streamId)).map Event.kind

/-- A handler is reset again before it has returned or registered another one, or it registers
    another one and returns. -/
def Reentered (kinds : List Kind) : Prop :=
  [.onCancel, .reset, .reset] <:+: kinds ∨ [.onCancel, .returned] <:+: kinds

/-- What a stream has: no handler, one that is to be called, or one that is running. -/
inductive Phase where
  | empty
  | armed
  | firing
deriving DecidableEq

def Phase.next : Phase → Kind → Phase
  | _, .onCancel => .armed
  | .empty, .reset => .empty
  | .armed, .reset => .firing
  | .firing, .reset => .firing
  | _, .returned => .empty

def Phase.after (kinds : List Kind) : Phase := kinds.foldl Phase.next .empty

/-- A handler that is running is called again, or one that is to be called is forgotten. -/
def Phase.Misses : Phase → Kind → Prop
  | .firing, .reset => True
  | .armed, .returned => True
  | _, _ => False

theorem Phase.after_snoc (kinds : List Kind) (kind : Kind) :
    Phase.after (kinds ++ [kind]) = (Phase.after kinds).next kind := by
  rw [Phase.after, List.foldl_append]
  rfl

theorem exists_of_armed {kinds : List Kind} (harmed : Phase.after kinds = .armed) :
    ∃ earlier, kinds = earlier ++ [.onCancel] := by
  rcases List.eq_nil_or_concat kinds with rfl | ⟨earlier, last, rfl⟩
  · cases harmed
  · rw [List.concat_eq_append, Phase.after_snoc] at harmed
    cases last with
    | onCancel => exact ⟨earlier, List.concat_eq_append⟩
    | reset => cases hphase : Phase.after earlier <;> rw [hphase] at harmed <;> cases harmed
    | returned => cases hphase : Phase.after earlier <;> rw [hphase] at harmed <;> cases harmed

theorem exists_of_firing {kinds : List Kind} (hfiring : Phase.after kinds = .firing) :
    ∃ earlier later, kinds = earlier ++ .onCancel :: .reset :: later ∧
      ∀ kind ∈ later, kind = .reset := by
  induction kinds using List.reverseRecOn with
  | nil => cases hfiring
  | append_singleton kinds last ih =>
    rw [Phase.after_snoc] at hfiring
    cases last with
    | onCancel => cases hphase : Phase.after kinds <;> rw [hphase] at hfiring <;> cases hfiring
    | returned => cases hphase : Phase.after kinds <;> rw [hphase] at hfiring <;> cases hfiring
    | reset =>
      cases hphase : Phase.after kinds with
      | empty =>
        rw [hphase] at hfiring
        cases hfiring
      | armed =>
        obtain ⟨earlier, rfl⟩ := exists_of_armed hphase
        exact ⟨earlier, [], by simp, by simp⟩
      | firing =>
        obtain ⟨earlier, later, rfl, hlater⟩ := ih hphase
        refine ⟨earlier, later ++ [.reset], by simp, ?_⟩
        intro kind hkind
        rcases List.mem_append.mp hkind with hbefore | hlast
        · exact hlater kind hbefore
        · exact List.mem_singleton.mp hlast

/-- A history misses at some point if and only if one of the two patterns occurs in it. -/
theorem reentered_iff (kinds : List Kind) :
    Reentered kinds ↔ ∃ earlier kind later, kinds = earlier ++ kind :: later ∧
      (Phase.after earlier).Misses kind := by
  constructor
  · rintro (⟨earlier, later, rfl⟩ | ⟨earlier, later, rfl⟩)
    · refine ⟨earlier ++ [.onCancel, .reset], .reset, later, by simp, ?_⟩
      have hphase : Phase.after (earlier ++ [.onCancel, .reset]) = .firing := by
        rw [Phase.after, List.foldl_append]
        rfl
      rw [hphase]
      trivial
    · refine ⟨earlier ++ [.onCancel], .returned, later, by simp, ?_⟩
      rw [Phase.after_snoc]
      trivial
  · rintro ⟨earlier, kind, later, rfl, hmisses⟩
    unfold Phase.Misses at hmisses
    split at hmisses
    · next hphase =>
        obtain ⟨before, resets, rfl, hresets⟩ := exists_of_firing hphase
        cases resets with
        | nil => exact Or.inl ⟨before, later, by simp⟩
        | cons second more =>
          rw [hresets second List.mem_cons_self]
          exact Or.inl ⟨before, more ++ .reset :: later, by simp⟩
    · next hphase =>
        obtain ⟨before, rfl⟩ := exists_of_armed hphase
        exact Or.inr ⟨before, later, by simp⟩
    · exact hmisses.elim

variable {state next final : State} {event : Event} {events : List Event}
variable {opened : BitVec 64 → Bool}

/-! ### The phase of a stream -/

def State.phase (state : State) (streamId : BitVec 64) : Phase :=
  match state.session.current streamId with
  | none => .empty
  | some handler => if handler.number ∈ state.called then .firing else .armed

variable {streamId : BitVec 64}

theorem phase_of_none (hnone : state.session.current streamId = none) :
    state.phase streamId = .empty := by
  rw [State.phase, hnone]

theorem phase_of_some {handler : Handler} (hsome : state.session.current streamId = some handler) :
    state.phase streamId = if handler.number ∈ state.called then .firing else .armed := by
  rw [State.phase, hsome]

theorem phase_eq_firing :
    state.phase streamId = .firing ↔
      ∃ handler ∈ state.session.current streamId, handler.number ∈ state.called := by
  rw [State.phase]
  cases state.session.current streamId with
  | none => simp
  | some handler => simp

theorem phase_eq_armed :
    state.phase streamId = .armed ↔
      ∃ handler ∈ state.session.current streamId, handler.number ∉ state.called := by
  rw [State.phase]
  cases state.session.current streamId with
  | none => simp
  | some handler => simp

/-- A state that has the same handler for a stream, and has called no other one. -/
theorem phase_congr (hcurrent : next.session.current streamId = state.session.current streamId)
    (hcalled : ∀ handler ∈ state.session.current streamId,
      (handler.number ∈ next.called ↔ handler.number ∈ state.called)) :
    next.phase streamId = state.phase streamId := by
  rw [State.phase, State.phase, hcurrent]
  cases hhandler : state.session.current streamId with
  | none => rfl
  | some handler => exact if_congr (hcalled handler hhandler) rfl rfl

/-- An event takes its stream to the next phase and leaves the others where they are. -/
theorem phase_step (hconsistent : state.Consistent) (hmoves : Moves state event next)
    (hopen : (state.session.streams streamId).isSome) :
    next.phase streamId =
      if event.streamId = streamId then (state.phase streamId).next event.kind
      else state.phase streamId := by
  cases hmoves with
  | @unknown other callable hstream =>
    rw [if_neg]
    rintro rfl
    rw [Event.streamId, hstream] at hopen
    cases hopen
  | @registers other callable stream hstream =>
    have hcurrent := state.session.current_update other streamId
      (stream.setHandler ⟨state.registered, callable⟩)
    rw [Event.streamId, Event.kind]
    split
    · next hsame =>
        rw [if_pos hsame.symm] at hcurrent
        have hnot : state.registered ∉ state.called := by
          intro hcalled
          exact Nat.lt_irrefl _ (hconsistent.called_lt _ hcalled)
        rw [phase_eq_armed.mpr ⟨_, hcurrent, hnot⟩]
        cases state.phase streamId <;> rfl
    · next hother =>
        rw [if_neg (Ne.symm hother)] at hcurrent
        exact phase_congr hcurrent fun _ _ => Iff.rfl
  | @ignores other hnone =>
    split
    · next hsame =>
        have hempty : state.phase streamId = .empty := phase_of_none (hsame ▸ hnone)
        rw [hempty]
        rfl
    · rfl
  | @calls other handler hsome =>
    rw [Event.streamId, Event.kind]
    split
    · next hsame =>
        subst hsame
        have hfiring : (state.call handler other).phase other = .firing :=
          phase_eq_firing.mpr ⟨handler, hsome, mem_called_call.mpr (Or.inr rfl)⟩
        rw [hfiring, phase_of_some hsome]
        split <;> rfl
    · next hother =>
        refine phase_congr rfl fun another hanother => ?_
        rw [mem_called_call, or_iff_left]
        intro hsame
        exact hother (hconsistent.distinct other streamId handler hsome another hanother
          hsame.symm)
  | @returns invocation rest hrunning =>
    have hcurrent := current_endInvoke state.session invocation.streamId streamId
    rw [Event.streamId, Event.kind]
    split
    · next hsame =>
        rw [if_pos hsame.symm] at hcurrent
        rw [phase_of_none hcurrent]
        cases state.phase streamId <;> rfl
    · next hother =>
        rw [if_neg (Ne.symm hother)] at hcurrent
        exact phase_congr hcurrent fun _ _ => Iff.rfl

theorem isSome_endInvoke (session : Session) (streamId other : BitVec 64) :
    ((endInvoke session streamId).streams other).isSome = (session.streams other).isSome := by
  rw [endInvoke]
  cases hstream : session.streams streamId with
  | none => rfl
  | some stream =>
    dsimp only [Session.update]
    rw [Function.update_apply]
    split
    · next hsame => rw [hsame, hstream, Option.isSome_some, Option.isSome_some]
    · rfl

/-- No stream is opened or closed. -/
theorem isSome_streams_after (hafter : after step (start opened) events = some final)
    (streamId : BitVec 64) : (final.session.streams streamId).isSome = opened streamId := by
  refine invariant (P := fun _ state =>
    (state.session.streams streamId).isSome = opened streamId) ?_ ?_ hafter
  · change (if opened streamId then some Stream.bare else none).isSome = opened streamId
    cases opened streamId <;> rfl
  · intro _ state event next _ ih hstep
    cases moves_of_step hstep with
    | unknown _ => exact ih
    | @registers other callable stream hstream =>
      rw [← ih]
      dsimp only [State.register, Session.update]
      rw [Function.update_apply]
      split
      · next hsame => rw [hsame, hstream, Option.isSome_some, Option.isSome_some]
      · rfl
    | ignores _ => exact ih
    | calls _ => exact ih
    | @returns invocation rest _ =>
      rw [← ih]
      exact isSome_endInvoke state.session invocation.streamId streamId

theorem history_snoc (streamId : BitVec 64) (events : List Event) (event : Event) :
    history streamId (events ++ [event]) =
      history streamId events ++ if event.streamId = streamId then [event.kind] else [] := by
  rw [history, history, List.filter_append, List.map_append]
  congr 1
  split
  · next hsame => simp [hsame]
  · next hother => simp [hother]

/-- The phase of a stream is where its history has taken it. -/
theorem phase_after (hafter : after step (start opened) events = some final)
    (hopen : opened streamId = true) :
    final.phase streamId = Phase.after (history streamId events) := by
  refine invariant (P := fun events state =>
    state.phase streamId = Phase.after (history streamId events)) ?_ ?_ hafter
  · apply phase_of_none
    change (if opened streamId then some Stream.bare else none).bind Stream.cancelFci = none
    rw [hopen]
    rfl
  · intro events state event next hbefore ih hstep
    have hstream : (state.session.streams streamId).isSome := by
      rw [isSome_streams_after hbefore, hopen]
    rw [phase_step (consistent_after hbefore) (moves_of_step hstep) hstream, history_snoc, ih]
    split
    · rw [Phase.after_snoc]
    · rw [List.append_nil]

/-! ### When handlers are kept -/

/-- The event neither calls a handler that is running nor forgets one that is to be called. -/
def Keeps (state : State) (event : Event) (_next : State) : Prop :=
  ¬ (state.phase event.streamId).Misses event.kind

/-- All steps keep the handlers if and only if no stream has one of the two patterns in its
    history. -/
theorem eachStep_keeps_iff (hafter : after step (start opened) events = some final) :
    EachStep step Keeps (start opened) events ↔
      ∀ streamId, opened streamId = true → ¬ Reentered (history streamId events) := by
  constructor
  · intro heach streamId hopen hreentered
    obtain ⟨earlier, kind, later, hsplit, hmisses⟩ := (reentered_iff _).mp hreentered
    -- the point in the history is an event of the run
    obtain ⟨before, rest, hevents, hbefore, hrest⟩ := List.map_eq_append_iff.mp hsplit
    obtain ⟨event, others, rfl, rfl, -⟩ := List.map_eq_cons_iff.mp hrest
    obtain ⟨first, tail, rfl, rfl, htail⟩ := List.filter_eq_append_iff.mp hevents
    obtain ⟨skipped, last, rfl, hskipped, hstream, -⟩ := List.filter_eq_cons_iff.mp htail
    have hsame : event.streamId = streamId := by simpa using hstream
    have hhistory : history streamId (first ++ skipped) = earlier := by
      have hnil : skipped.filter (·.streamId = streamId) = [] := List.filter_eq_nil_iff.mpr hskipped
      rw [history, List.filter_append, hnil, List.append_nil, hbefore]
    rw [← List.append_assoc] at hafter heach
    obtain ⟨state, hstate, hmore⟩ := after_append_iff.mp hafter
    obtain ⟨next, hstep, -⟩ := after_cons.mp hmore
    have hkeeps := heach (first ++ skipped) event last state next rfl hstate hstep
    rw [Keeps, hsame, phase_after hstate hopen, hhistory] at hkeeps
    exact hkeeps hmisses
  · intro hnone earlier event later state next hsplit hbefore hstep hmisses
    have hopen : opened event.streamId = true := by
      rw [← isSome_streams_after hbefore event.streamId]
      cases hstream : state.session.streams event.streamId with
      | some stream => rfl
      | none =>
        rw [phase_of_none (by rw [Session.current, hstream, Option.bind_none])] at hmisses
        cases hkind : event.kind <;> rw [hkind] at hmisses <;> exact hmisses.elim
    refine hnone event.streamId hopen ((reentered_iff _).mpr
      ⟨history event.streamId earlier, event.kind, history event.streamId later, ?_, ?_⟩)
    · rw [hsplit, history, List.filter_append, List.map_append, List.filter_cons_of_pos (by simp),
        List.map_cons]
      rfl
    · rw [← phase_after hbefore hopen]
      exact hmisses

/-- What was called stays called. -/
theorem called_mono (hafter : after step state events = some final) :
    state.called <+: final.called := by
  refine invariant (P := fun _ next => state.called <+: next.called) List.prefix_rfl ?_ hafter
  intro _ middle event next _ ih hstep
  refine ih.trans ?_
  cases moves_of_step hstep with
  | unknown _ => exact List.prefix_rfl
  | registers _ => exact List.prefix_rfl
  | ignores _ => exact List.prefix_rfl
  | @calls streamId handler _ =>
    exact ⟨[handler.number], (List.map_append : _ = middle.called ++ [handler.number]).symm⟩
  | returns _ => exact List.prefix_rfl

/-- A step that keeps the handlers calls none twice and accounts for all. -/
theorem accounted_step (hmoves : Moves state event next) (hkeeps : Keeps state event next)
    (honce : state.called.Nodup)
    (haccounted : ∀ number < state.registered, state.Accounted number) :
    next.called.Nodup ∧ ∀ number < next.registered, next.Accounted number := by
  cases hmoves with
  | unknown _ => exact ⟨honce, haccounted⟩
  | ignores _ => exact ⟨honce, haccounted⟩
  | @registers streamId callable stream hstream =>
    have hcurrent := state.session.current_update streamId
    refine ⟨honce, fun number hnumber => ?_⟩
    rcases Nat.lt_succ_iff_lt_or_eq.mp hnumber with hbefore | rfl
    · rcases haccounted number hbefore with hcalled | hreplaced | ⟨other, handler, hhandler, rfl⟩
      · exact Or.inl hcalled
      · exact Or.inr (Or.inl (mem_replaced_register.mpr (Or.inl hreplaced)))
      · by_cases hsame : other = streamId
        · -- its place is taken now
          subst hsame
          exact Or.inr (Or.inl (mem_replaced_register.mpr (Or.inr ⟨handler, hhandler, rfl⟩)))
        · refine Or.inr (Or.inr ⟨other, handler, ?_, rfl⟩)
          exact (hcurrent other _).trans ((if_neg hsame).trans hhandler)
    · refine Or.inr (Or.inr ⟨streamId, ⟨state.registered, callable⟩, ?_, rfl⟩)
      exact (hcurrent streamId _).trans (if_pos rfl)
  | @calls streamId handler hsome =>
    have hnot : handler.number ∉ state.called := by
      intro hcalled
      rw [Keeps, Event.streamId, phase_eq_firing.mpr ⟨handler, hsome, hcalled⟩] at hkeeps
      exact hkeeps trivial
    refine ⟨?_, fun number hnumber => ?_⟩
    · rw [State.called, State.call, List.map_append, List.nodup_append]
      refine ⟨honce, List.nodup_singleton _, ?_⟩
      rintro number hnumber _ hlast rfl
      rw [List.map_singleton, List.mem_singleton] at hlast
      exact hnot (hlast ▸ hnumber)
    · rcases haccounted number hnumber with hcalled | hreplaced | hregistered
      · exact Or.inl (mem_called_call.mpr (Or.inl hcalled))
      · exact Or.inr (Or.inl hreplaced)
      · exact Or.inr (Or.inr hregistered)
  | @returns invocation rest hrunning =>
    refine ⟨honce, fun number hnumber => ?_⟩
    rcases haccounted number hnumber with hcalled | hreplaced | ⟨other, handler, hhandler, rfl⟩
    · exact Or.inl hcalled
    · exact Or.inr (Or.inl hreplaced)
    · by_cases hsame : other = invocation.streamId
      · -- what is forgotten has been called
        subst hsame
        refine Or.inl (by_contra fun hnot => ?_)
        rw [Keeps, Event.streamId, phase_eq_armed.mpr ⟨handler, hhandler, hnot⟩] at hkeeps
        exact hkeeps trivial
      · refine Or.inr (Or.inr ⟨other, handler, ?_, rfl⟩)
        exact (current_endInvoke _ _ other).trans ((if_neg hsame).trans hhandler)

theorem registered_of_returned (hstep : step state (.returned streamId) = some next) :
    next.registered = state.registered := by
  generalize hevent : Event.returned streamId = event at hstep
  cases moves_of_step hstep with
  | returns _ => rfl
  | _ => cases hevent

theorem accounted_after (hafter : after step (start opened) events = some final)
    (heach : EachStep step Keeps (start opened) events) :
    final.called.Nodup ∧ ∀ number < final.registered, final.Accounted number := by
  refine invariant (P := fun events state => EachStep step Keeps (start opened) events →
    state.called.Nodup ∧ ∀ number < state.registered, state.Accounted number) ?_ ?_ hafter heach
  · intro _
    exact ⟨List.nodup_nil, fun number hnumber => absurd hnumber (Nat.not_lt_zero number)⟩
  · intro events state event next hbefore ih hstep heach
    obtain ⟨hearlier, hkeeps⟩ := (eachStep_snoc hbefore hstep).mp heach
    obtain ⟨honce, haccounted⟩ := ih hearlier
    exact accounted_step (moves_of_step hstep) hkeeps honce haccounted

/-- A step that does not keep the handlers calls one again, or does not account for one that was
    registered during the invocation that returns. -/
theorem keeps_of_kept (hconsistent : state.Consistent) (hmoves : Moves state event next)
    (honce : next.called.Nodup) (hkept : KeptAtReturn state event next) :
    Keeps state event next := by
  intro hmisses
  cases hmoves with
  | unknown _ => cases hphase : state.phase _ <;> rw [hphase] at hmisses <;> exact hmisses.elim
  | registers _ => cases hphase : state.phase _ <;> rw [hphase] at hmisses <;> exact hmisses.elim
  | ignores hnone =>
    rw [Event.streamId, phase_of_none hnone] at hmisses
    exact hmisses.elim
  | @calls streamId handler hsome =>
    rw [Event.streamId, phase_of_some hsome] at hmisses
    split at hmisses
    · next hcalled =>
        rw [State.called, State.call, List.map_append, List.nodup_append] at honce
        exact honce.2.2 handler.number hcalled handler.number (by simp) rfl
    · exact hmisses.elim
  | @returns invocation rest hrunning =>
    rw [Event.streamId] at hmisses
    cases hphase : state.phase invocation.streamId with
    | empty =>
      rw [hphase] at hmisses
      exact hmisses.elim
    | firing =>
      rw [hphase] at hmisses
      exact hmisses.elim
    | armed =>
      obtain ⟨handler, hhandler, hnot⟩ := phase_eq_armed.mp hphase
      have hin : invocation ∈ state.running := hrunning ▸ List.mem_cons_self
      rcases hkept invocation (by rw [hrunning]; rfl) rfl handler.number
        (hconsistent.since_le_number invocation hin handler hhandler hnot)
        (hconsistent.number_lt _ handler hhandler) with hcalled | hreplaced | hregistered
      · exact hnot hcalled
      · exact hconsistent.not_replaced _ handler hhandler hreplaced
      · -- no other stream has a handler of this number
        obtain ⟨other, another, hanother, hsame⟩ := hregistered
        have hcurrent := (current_endInvoke _ _ other).symm.trans hanother
        obtain ⟨hother, hbefore⟩ := Option.ite_none_left_eq_some.mp hcurrent
        exact hother (hconsistent.distinct other _ another hbefore handler hhandler hsame)

/-- **Handlers run at most once and are never lost** if and only if no open stream is reset twice
    after a registration with nothing in between, and no handler registers another one for its
    stream as the last thing before it returns: for all streams that are open, and every sequence
    of registrations, resets and returns. -/
theorem handlers_kept_iff (opened : BitVec 64 → Bool) (events : List Event) (final : State)
    (hafter : after step (start opened) events = some final) :
    HandlersKept opened events final ↔
      ∀ streamId, opened streamId = true → ¬ Reentered (history streamId events) := by
  rw [← eachStep_keeps_iff hafter]
  constructor
  · intro hkept earlier event later state next hsplit hbefore hstep
    have hlater : after step next later = some final := by
      rw [hsplit, after_append hbefore] at hafter
      obtain ⟨other, hother, hrest⟩ := after_cons.mp hafter
      cases hstep.symm.trans hother
      exact hrest
    exact keeps_of_kept (consistent_after hbefore) (moves_of_step hstep)
      ((called_mono hlater).sublist.nodup hkept.once)
      (hkept.kept earlier event later state next hsplit hbefore hstep)
  · intro heach
    refine ⟨(accounted_after hafter heach).1, ?_⟩
    rintro earlier event later state next rfl hbefore hstep invocation hinvocation rfl number -
      hnumber
    have hnext : after step (start opened) (earlier ++ [.returned invocation.streamId]) =
        some next := after_snoc.mpr ⟨state, hbefore, hstep⟩
    refine (accounted_after hnext ?_).2 number (registered_of_returned hstep ▸ hnumber)
    intro first other rest before behind hfirst
    exact heach first other (rest ++ later) before behind (by
      rw [List.append_cons, hfirst, List.append_assoc, List.cons_append])

/-! ### Three runs -/

def onlyStream (streamId : BitVec 64) : Bool := streamId = 4

/-- The names of two functions. -/
def cleanUp : Zval := .string (ascii "clean_up")

def report : Zval := .string (ascii "report")

/-- A handler registers another one and waits until this one has been called, too. -/
def nested : List Event :=
  [.onCancel 4 cleanUp, .reset 4, .onCancel 4 report, .reset 4, .returned 4, .returned 4]

theorem nested_kept : ∃ final, after step (start onlyStream) nested = some final ∧
    final.called = [0, 1] ∧ HandlersKept onlyStream nested final := by
  refine ⟨_, rfl, rfl, (handlers_kept_iff onlyStream nested _ rfl).mpr ?_⟩
  intro streamId hopen
  cases of_decide_eq_true hopen
  unfold Reentered
  decide

def resetTwice : List Event := [.onCancel 4 cleanUp, .reset 4, .reset 4]

def registersLast : List Event := [.onCancel 4 cleanUp, .reset 4, .onCancel 4 report, .returned 4]

/-- A stream is reset again while its handler runs, and the handler is called twice. A handler
    registers another one, which is gone when it returns. -/
theorem called_twice_and_lost :
    (∃ final, after step (start onlyStream) resetTwice = some final ∧ final.called = [0, 0] ∧
      ¬ HandlersKept onlyStream resetTwice final) ∧
    ∃ final, after step (start onlyStream) registersLast = some final ∧ final.called = [0] ∧
      final.session.current 4 = none ∧ ¬ HandlersKept onlyStream registersLast final := by
  refine ⟨⟨_, rfl, rfl, fun hkept => ?_⟩, _, rfl, rfl, rfl, fun hkept => ?_⟩
  · exact absurd hkept.once (by decide)
  · have hreturn := hkept.kept [.onCancel 4 cleanUp, .reset 4, .onCancel 4 report] (.returned 4) []
      _ _ rfl rfl rfl ⟨4, 1⟩ rfl rfl 1 (Nat.le_refl 1) (Nat.lt_succ_self 1)
    rcases hreturn with hcalled | hreplaced | ⟨streamId, handler, hhandler, -⟩
    · exact absurd hcalled (by decide)
    · exact absurd hreplaced (by decide)
    · -- the only stream has no handler any more
      have hstream := @isSome_streams_after _ registersLast onlyStream rfl streamId
      obtain ⟨stream, hsome, -⟩ := Option.bind_eq_some_iff.mp hhandler
      rw [hsome] at hstream
      cases of_decide_eq_true hstream.symm
      cases hhandler

end QuicproAsync.CancelHandlers

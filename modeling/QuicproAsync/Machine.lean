import Mathlib.Data.List.Induction

/-!
# Machines driven by events

A machine is a step function that takes a state and an event to the next state, or
refuses the event. `after` runs it over a list of events. `invariant` is the induction
every safety proof uses: what holds at the start and is kept by each step holds after
every run, and it may speak about the events of the run so far. `Visits` says that a run
has passed through a state of a kind, and `observed` lists what the steps of a run show.
-/

namespace QuicproAsync.Machine

section Runs

variable (step : σ → ε → Option σ)

/-- The state after a list of events, none if one of them is refused. -/
def after (start : σ) (events : List ε) : Option σ := events.foldlM step start

/-- Some state of the run, the first and the last included, is of the given kind. -/
def Visits (seen : σ → Prop) (start : σ) (events : List ε) : Prop :=
  ∃ earlier later state, events = earlier ++ later ∧ after step start earlier = some state ∧
    seen state

/-- Every state of the run, the first and the last included, is of the given kind. -/
def Throughout (good : σ → Prop) (start : σ) (events : List ε) : Prop :=
  ∀ earlier later state, events = earlier ++ later → after step start earlier = some state →
    good state

/-- Every step of the run is of the given kind. -/
def EachStep (good : σ → ε → σ → Prop) (start : σ) (events : List ε) : Prop :=
  ∀ earlier event later state next, events = earlier ++ event :: later →
    after step start earlier = some state → step state event = some next → good state event next

/-- What the steps of a run show, in order. -/
def observed (look : σ → ε → Option β) : σ → List ε → List β
  | _, [] => []
  | state, event :: rest =>
    (look state event).toList ++
      match step state event with
      | some next => observed look next rest
      | none => []

end Runs

variable {step : σ → ε → Option σ}

theorem after_append {start state : σ} {events : List ε}
    (hafter : after step start events = some state) (more : List ε) :
    after step start (events ++ more) = after step state more := by
  unfold after at *
  rw [List.foldlM_append, hafter]
  rfl

/-- A run is a run over its first events and one over the rest. -/
theorem after_append_iff {start final : σ} {events more : List ε} :
    after step start (events ++ more) = some final ↔
      ∃ state, after step start events = some state ∧ after step state more = some final := by
  unfold after
  rw [List.foldlM_append]
  exact Option.bind_eq_some_iff

theorem after_cons {start final : σ} {event : ε} {events : List ε} :
    after step start (event :: events) = some final ↔
      ∃ next, step start event = some next ∧ after step next events = some final := by
  unfold after
  rw [List.foldlM_cons]
  exact Option.bind_eq_some_iff

theorem after_snoc {start final : σ} {events : List ε} {event : ε} :
    after step start (events ++ [event]) = some final ↔
      ∃ state, after step start events = some state ∧ step state event = some final := by
  unfold after
  rw [List.foldlM_append]
  cases List.foldlM step start events with
  | none => simp
  | some state => simp

/-- The induction over runs. The property may depend on the events taken so far. -/
theorem invariant {start : σ} {P : List ε → σ → Prop} (hstart : P [] start)
    (hstep : ∀ events state event next, after step start events = some state →
      P events state → step state event = some next → P (events ++ [event]) next)
    {events : List ε} {state : σ} (hafter : after step start events = some state) :
    P events state := by
  induction events using List.reverseRecOn generalizing state with
  | nil =>
    cases hafter
    exact hstart
  | append_singleton events event ih =>
    obtain ⟨before, hbefore, hlast⟩ := after_snoc.mp hafter
    exact hstep events before event state hbefore (ih hbefore) hlast

/-! ### Visits -/

theorem visits_nil {seen : σ → Prop} {start : σ} : Visits step seen start [] ↔ seen start := by
  constructor
  · rintro ⟨earlier, later, state, hsplit, hafter, hseen⟩
    obtain ⟨rfl, rfl⟩ := List.append_eq_nil_iff.mp hsplit.symm
    cases hafter
    exact hseen
  · intro hseen
    exact ⟨[], [], start, rfl, rfl, hseen⟩

/-- A run that takes one more step visits nothing new but the state it ends in. -/
theorem visits_snoc {seen : σ → Prop} {start next : σ} {events : List ε} {event : ε}
    (hnext : after step start (events ++ [event]) = some next) :
    Visits step seen start (events ++ [event]) ↔
      Visits step seen start events ∨ seen next := by
  constructor
  · rintro ⟨earlier, later, state, hsplit, hafter, hseen⟩
    rcases List.eq_nil_or_concat later with rfl | ⟨initial, last, rfl⟩
    · rw [List.append_nil] at hsplit
      rw [hsplit, hafter] at hnext
      cases hnext
      exact Or.inr hseen
    · rw [List.concat_eq_append, ← List.append_assoc] at hsplit
      have hevents := (List.append_inj' hsplit rfl).1
      exact Or.inl ⟨earlier, initial, state, hevents, hafter, hseen⟩
  · rintro (⟨earlier, later, state, rfl, hafter, hseen⟩ | hseen)
    · exact ⟨earlier, later ++ [event], state, List.append_assoc _ _ _, hafter, hseen⟩
    · exact ⟨events ++ [event], [], next, (List.append_nil _).symm, hnext, hseen⟩

theorem throughout_iff {good : σ → Prop} {start : σ} {events : List ε} :
    Throughout step good start events ↔
      ¬ Visits step (fun state => ¬ good state) start events := by
  constructor
  · rintro hgood ⟨earlier, later, state, hsplit, hafter, hbad⟩
    exact hbad (hgood earlier later state hsplit hafter)
  · intro hvisits earlier later state hsplit hafter
    by_contra hbad
    exact hvisits ⟨earlier, later, state, hsplit, hafter, hbad⟩

theorem throughout_nil {good : σ → Prop} {start : σ} :
    Throughout step good start [] ↔ good start := by
  rw [throughout_iff, visits_nil, not_not]

theorem throughout_snoc {good : σ → Prop} {start next : σ} {events : List ε} {event : ε}
    (hnext : after step start (events ++ [event]) = some next) :
    Throughout step good start (events ++ [event]) ↔
      Throughout step good start events ∧ good next := by
  rw [throughout_iff, visits_snoc hnext, not_or, not_not, ← throughout_iff]

/-! ### Steps -/

/-- Steps from states with an invariant may be described in two ways. -/
theorem eachStep_congr {kind : σ → Prop} {good good' : σ → ε → σ → Prop} {start : σ}
    (hstart : kind start)
    (hkept : ∀ state event next, kind state → step state event = some next → kind next)
    (hgood : ∀ state event next, kind state → step state event = some next →
      (good state event next ↔ good' state event next)) (events : List ε) :
    EachStep step good start events ↔ EachStep step good' start events := by
  have hkind : ∀ {events state}, after step start events = some state → kind state :=
    invariant hstart fun _ state event next _ => hkept state event next
  constructor
  · intro heach earlier event later state next hsplit hafter hstep
    exact (hgood state event next (hkind hafter) hstep).mp
      (heach earlier event later state next hsplit hafter hstep)
  · intro heach earlier event later state next hsplit hafter hstep
    exact (hgood state event next (hkind hafter) hstep).mpr
      (heach earlier event later state next hsplit hafter hstep)

/-- One element of a list with a last one: it is the last one, or it is among those before. -/
theorem snoc_split {earlier later events : List ε} {event other : ε}
    (hsplit : events ++ [event] = earlier ++ other :: later) :
    (earlier = events ∧ other = event) ∨ ∃ initial, events = earlier ++ other :: initial := by
  rcases List.eq_nil_or_concat later with rfl | ⟨initial, last, rfl⟩
  · obtain ⟨rfl, hlast⟩ := List.append_inj' hsplit rfl
    cases hlast
    exact .inl ⟨rfl, rfl⟩
  · rw [List.concat_eq_append, ← List.cons_append, ← List.append_assoc] at hsplit
    exact .inr ⟨initial, (List.append_inj' hsplit rfl).1⟩

theorem eachStep_nil {good : σ → ε → σ → Prop} {start : σ} : EachStep step good start [] := by
  intro earlier event later state next hsplit
  simp at hsplit

/-- A run that takes one more step has that step and the steps before. -/
theorem eachStep_snoc {good : σ → ε → σ → Prop} {start state next : σ} {events : List ε}
    {event : ε} (hafter : after step start events = some state)
    (hstep : step state event = some next) :
    EachStep step good start (events ++ [event]) ↔
      EachStep step good start events ∧ good state event next := by
  constructor
  · intro heach
    refine ⟨fun earlier other later before behind hsplit => ?_,
      heach events event [] state next rfl hafter hstep⟩
    exact heach earlier other (later ++ [event]) before behind (by simp [hsplit])
  · rintro ⟨heach, hlast⟩ earlier other later before behind hsplit hbefore hbehind
    rcases snoc_split hsplit with ⟨rfl, rfl⟩ | ⟨initial, hinitial⟩
    · cases hafter.symm.trans hbefore
      cases hstep.symm.trans hbehind
      exact hlast
    · exact heach earlier other initial before behind hinitial hbefore hbehind

theorem eachStep_singleton {good : σ → ε → σ → Prop} {start next : σ} {event : ε}
    (hstep : step start event = some next) :
    EachStep step good start [event] ↔ good start event next := by
  rw [← List.nil_append [event], eachStep_snoc rfl hstep]
  exact and_iff_right eachStep_nil

/-! ### Observations -/

theorem observed_append {look : σ → ε → Option β} {start state : σ} {events : List ε}
    (more : List ε) (hafter : after step start events = some state) :
    observed step look start (events ++ more) =
      observed step look start events ++ observed step look state more := by
  induction events generalizing start with
  | nil =>
    cases hafter
    rfl
  | cons first rest ih =>
    rw [after, List.foldlM_cons] at hafter
    cases hfirst : step start first with
    | none =>
      rw [hfirst] at hafter
      cases hafter
    | some next =>
      rw [hfirst] at hafter
      simp only [List.cons_append, observed, hfirst]
      rw [ih hafter, List.append_assoc]

theorem observed_singleton {look : σ → ε → Option β} (state : σ) (event : ε) :
    observed step look state [event] = (look state event).toList := by
  unfold observed
  cases step state event with
  | none => rw [List.append_nil]
  | some next => exact List.append_nil _

theorem observed_snoc {look : σ → ε → Option β} {start state : σ} {events : List ε} (event : ε)
    (hafter : after step start events = some state) :
    observed step look start (events ++ [event]) =
      observed step look start events ++ (look state event).toList := by
  rw [observed_append [event] hafter, observed_singleton]

/-- Events that show nothing in any state. -/
theorem observed_eq_nil {look : σ → ε → Option β} {events : List ε}
    (hlook : ∀ event ∈ events, ∀ state, look state event = none) (start : σ) :
    observed step look start events = [] := by
  induction events generalizing start with
  | nil => rfl
  | cons first rest ih =>
    unfold observed
    rw [hlook first List.mem_cons_self start]
    cases step start first with
    | none => rfl
    | some next => exact ih (fun event hevent => hlook event (List.mem_cons_of_mem _ hevent)) next

/-! ### Parts of a machine -/

/-- If a part of the state changes only at the events that concern it, and then as a machine of
    its own would, a run of the whole leaves it as the run of that machine over those events. -/
theorem foldl_view {step : σ → ε → σ} {part : τ → ε → τ} {view : σ → τ} {concerns : ε → Bool}
    (hother : ∀ state event, concerns event = false → view (step state event) = view state)
    (hown : ∀ state event, concerns event = true →
      view (step state event) = part (view state) event) (state : σ) (events : List ε) :
    view (events.foldl step state) = (events.filter concerns).foldl part (view state) := by
  induction events generalizing state with
  | nil => rfl
  | cons event events ih =>
    rw [List.foldl_cons, ih]
    cases hconcerns : concerns event with
    | false => rw [List.filter_cons_of_neg (by simp [hconcerns]), hother state event hconcerns]
    | true =>
      rw [List.filter_cons_of_pos hconcerns, List.foldl_cons, hown state event hconcerns]

end QuicproAsync.Machine

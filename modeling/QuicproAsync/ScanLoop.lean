import Mathlib.Data.List.Basic
import Mathlib.Logic.Relation
import QuicproAsync.Fallible

/-!
# Scanning loops

Two views of a loop that reads a buffer from front to back.

The concrete view, `whileBelow`, is the loop `while (p < bound)` over a pointer and
a state, cut off after a given number of iterations. The abstract view, `drain`,
repeatedly applies a step to the list of items that are still unread until none
are left. A step of the second view may also answer `overrun`: a length taken from
the input exceeds what is left of it, and the abstract view makes no promise about
what the concrete loop then does.

`whileBelow_of_drain` is the refinement rule: if every concrete step agrees with
the abstract step on the window between the pointer and the bound, then the loops
agree. `drainAll_append` is the composition rule: a step that does not look past
what it consumes drains a concatenation piece by piece.
-/

namespace QuicproAsync.ScanLoop

open Fallible

/-! ### Windows of a memory -/

/-- The `count` items of `memory` from address `start` on. -/
def slice (memory : Nat → β) : Nat → Nat → List β
  | _, 0 => []
  | start, count + 1 => memory start :: slice memory (start + 1) count

/-- The items between two addresses. -/
def window (memory : Nat → β) (start stop : Nat) : List β :=
  slice memory start (stop - start)

@[simp] theorem length_slice (memory : Nat → β) (start count : Nat) :
    (slice memory start count).length = count := by
  induction count generalizing start with
  | zero => rfl
  | succ count ih => simp [slice, ih]

theorem slice_add (memory : Nat → β) (start first second : Nat) :
    slice memory start (first + second) =
      slice memory start first ++ slice memory (start + first) second := by
  induction first generalizing start with
  | zero => simp [slice]
  | succ first ih =>
    rw [Nat.succ_add, slice, ih, slice, List.cons_append]
    congr 3
    omega

@[simp] theorem length_window (memory : Nat → β) (start stop : Nat) :
    (window memory start stop).length = stop - start := length_slice _ _ _

variable {start stop : Nat}

theorem window_of_le (memory : Nat → β) (hle : stop ≤ start) :
    window memory start stop = [] := by
  rw [window, Nat.sub_eq_zero_of_le hle, slice]

theorem window_cons (memory : Nat → β) (hlt : start < stop) :
    window memory start stop = memory start :: window memory (start + 1) stop := by
  have hcount : stop - start = (stop - (start + 1)) + 1 := by omega
  rw [window, hcount, slice, window]

theorem window_append (memory : Nat → β) {middle : Nat} (hfirst : start ≤ middle)
    (hsecond : middle ≤ stop) :
    window memory start stop = window memory start middle ++ window memory middle stop := by
  have hcount : stop - start = (middle - start) + (stop - middle) := by omega
  have hmiddle : start + (middle - start) = middle := by omega
  rw [window, hcount, slice_add, hmiddle, window, window]

theorem take_window (memory : Nat → β) {count : Nat} (hle : start + count ≤ stop) :
    (window memory start stop).take count = window memory start (start + count) := by
  rw [window_append memory (Nat.le_add_right start count) hle]
  exact List.take_left' (by simp)

theorem drop_window (memory : Nat → β) {count : Nat} (hle : start + count ≤ stop) :
    (window memory start stop).drop count = window memory (start + count) stop := by
  rw [window_append memory (Nat.le_add_right start count) hle]
  exact List.drop_left' (by simp)

/-! ### The concrete loop -/

/-- `while (p < bound) (p, s) := step p s`, answering `exhausted` when the budget of
    iterations runs out before the condition turns false. -/
def whileBelow (exhausted : ε) (bound : Nat) (step : Nat → σ → Except ε (Nat × σ)) :
    Nat → Nat → σ → Except ε (Nat × σ)
  | 0, p, s => if p < bound then .error exhausted else .ok (p, s)
  | fuel + 1, p, s =>
    if p < bound then
      match step p s with
      | .error e => .error e
      | .ok (p', s') => whileBelow exhausted bound step fuel p' s'
    else .ok (p, s)

section Concrete

variable {exhausted : ε} {bound : Nat} {step : Nat → σ → Except ε (Nat × σ)}

theorem whileBelow_done {p : Nat} (hdone : bound ≤ p) (fuel : Nat) (s : σ) :
    whileBelow exhausted bound step fuel p s = .ok (p, s) := by
  cases fuel <;> rw [whileBelow, if_neg (by omega)]

variable {fuel : Nat}

theorem whileBelow_step {p p' : Nat} {s s' : σ} (hlt : p < bound)
    (hstep : step p s = .ok (p', s')) :
    whileBelow exhausted bound step (fuel + 1) p s =
      whileBelow exhausted bound step fuel p' s' := by
  rw [whileBelow, if_pos hlt, hstep]

theorem whileBelow_error {p : Nat} {s : σ} {e : ε} (hlt : p < bound) (hstep : step p s = .error e) :
    whileBelow exhausted bound step (fuel + 1) p s = .error e := by
  rw [whileBelow, if_pos hlt, hstep]

/-- A loop that ends well and does not end at once has made a turn. -/
theorem whileBelow_first {p : Nat} {s : σ} {last : Nat × σ} (hlt : p < bound)
    (hok : whileBelow exhausted bound step fuel p s = .ok last) :
    ∃ less p' s', step p s = .ok (p', s') ∧
      whileBelow exhausted bound step less p' s' = .ok last := by
  cases fuel with
  | zero =>
    rw [whileBelow, if_pos hlt] at hok
    cases hok
  | succ less =>
    rcases hstep : step p s with e | ⟨p', s'⟩
    · rw [whileBelow_error hlt hstep] at hok
      cases hok
    · rw [whileBelow_step hlt hstep] at hok
      exact ⟨less, p', s', rfl, hok⟩

/-- One turn of the loop, as a relation on its states. -/
def Turn (bound : Nat) (step : Nat → σ → Except ε (Nat × σ)) (before after : Nat × σ) : Prop :=
  before.1 < bound ∧ step before.1 before.2 = .ok after

/-- The states the loop passes through. -/
def Reaches (bound : Nat) (step : Nat → σ → Except ε (Nat × σ)) : Nat × σ → Nat × σ → Prop :=
  Relation.ReflTransGen (Turn bound step)

/-- A loop that ends well goes on from every state it passes through to the same end. -/
theorem Reaches.continues {exhausted : ε} {bound : Nat} {step : Nat → σ → Except ε (Nat × σ)}
    {before state last : Nat × σ} (hreach : Reaches bound step before state)
    (hok : whileBelow exhausted bound step fuel before.1 before.2 = .ok last) :
    ∃ less, whileBelow exhausted bound step less state.1 state.2 = .ok last := by
  induction hreach using Relation.ReflTransGen.head_induction_on generalizing fuel with
  | refl => exact ⟨fuel, hok⟩
  | head hturn _ ih =>
    obtain ⟨less, p, s, hstep, hrest⟩ := whileBelow_first hturn.1 hok
    cases Except.ok.inj (hturn.2.symm.trans hstep)
    exact ih hrest

/-- A loop whose first turn is its last passes through two states. -/
theorem Reaches.of_single {bound : Nat} {step : Nat → σ → Except ε (Nat × σ)}
    {before after state : Nat × σ} (hstep : step before.1 before.2 = .ok after)
    (hdone : bound ≤ after.1) (hreach : Reaches bound step before state) :
    state = before ∨ state = after := by
  rcases hreach.cases_head with rfl | ⟨next, hturn, hreach⟩
  · exact .inl rfl
  · cases Except.ok.inj (hturn.2.symm.trans hstep)
    rcases hreach.cases_head with rfl | ⟨_, hturn, -⟩
    · exact .inr rfl
    · exact absurd hturn.1 (by omega)

/-- **Budget rule.** What every turn keeps, with one less in the budget, the loop keeps. -/
theorem whileBelow_budget {allowed : ε → Prop} (inv : Nat → Nat → σ → Prop)
    (hexhausted : ∀ p s, inv 0 p s → p < bound → allowed exhausted)
    (hstep : ∀ fuel p s, inv (fuel + 1) p s → p < bound →
      Ends allowed (fun next => inv fuel next.1 next.2) (step p s)) (p : Nat) (s : σ)
    (hinv : inv fuel p s) :
    Ends allowed (fun last => bound ≤ last.1 ∧ ∃ left, inv left last.1 last.2)
      (whileBelow exhausted bound step fuel p s) := by
  induction fuel generalizing p s with
  | zero =>
    rw [whileBelow]
    split
    · next hlt => exact hexhausted p s hinv hlt
    · next hdone => exact ⟨Nat.not_lt.mp hdone, 0, hinv⟩
  | succ fuel ih =>
    by_cases hlt : p < bound
    · have hturn := hstep fuel p s hinv hlt
      rcases hres : step p s with e | ⟨p', s'⟩
      · rw [whileBelow_error hlt hres]
        exact hturn.error hres
      · rw [whileBelow_step hlt hres]
        exact ih p' s' (hturn.ok hres)
    · rw [whileBelow_done (Nat.not_lt.mp hlt)]
      exact ⟨Nat.not_lt.mp hlt, _, hinv⟩

/-- **Invariant rule.** What every turn keeps, the loop keeps. -/
theorem whileBelow_invariant {allowed : ε → Prop} (inv : Nat → σ → Prop)
    (hexhausted : allowed exhausted)
    (hstep : ∀ p s, inv p s → p < bound → Ends allowed (fun next => inv next.1 next.2) (step p s))
    (fuel p : Nat) (s : σ) (hinv : inv p s) :
    Ends allowed (fun last => inv last.1 last.2) (whileBelow exhausted bound step fuel p s) :=
  (whileBelow_budget (fun _ => inv) (fun _ _ _ _ => hexhausted) (fun _ => hstep) p s hinv).mono
    fun _ ⟨_, _, hlast⟩ => hlast

/-- What every turn that succeeds keeps, a loop that succeeds keeps. -/
theorem whileBelow_keeps (inv : Nat → σ → Prop)
    (hstep : ∀ p s p' s', inv p s → step p s = .ok (p', s') → inv p' s') {p q : Nat} {s t : σ}
    (hinv : inv p s) (hloop : whileBelow exhausted bound step fuel p s = .ok (q, t)) : inv q t := by
  have hends : Ends (fun _ => True) (fun last => inv last.1 last.2)
      (whileBelow exhausted bound step fuel p s) := by
    refine whileBelow_invariant inv trivial (fun p s hinv _ => ?_) fuel p s hinv
    rcases hturn : step p s with e | ⟨p', s'⟩
    · trivial
    · exact hstep p s p' s' hinv hturn
  exact hends.ok hloop

/-- **Progress rule.** If every turn moves the pointer forward without passing the bound,
    the budget `bound - p` is enough: the loop ends at the bound, or with a failure of
    one of its turns. -/
theorem whileBelow_of_progress {allowed : ε → Prop} (inv : Nat → σ → Prop)
    (hstep : ∀ p s, inv p s → p < bound →
      Ends allowed (fun next => p < next.1 ∧ next.1 ≤ bound ∧ inv next.1 next.2) (step p s))
    (fuel p : Nat) (s : σ) (hinv : inv p s) (hle : p ≤ bound) (hfuel : bound - p ≤ fuel) :
    Ends allowed (fun last => last.1 = bound ∧ inv last.1 last.2)
      (whileBelow exhausted bound step fuel p s) := by
  refine (whileBelow_budget (fun fuel p s => inv p s ∧ p ≤ bound ∧ bound - p ≤ fuel)
    (fun p _ hempty hlt => absurd hlt (by omega)) (fun fuel p s hbefore hlt => ?_) p s
    ⟨hinv, hle, hfuel⟩).mono ?_
  · exact (hstep p s hbefore.1 hlt).mono fun next ⟨hforward, hinside, hnext⟩ =>
      ⟨hnext, hinside, by omega⟩
  · rintro last ⟨hdone, left, hlast, hinside, -⟩
    exact ⟨by omega, hlast⟩

/-- A turn that leads back to where it started uses up every budget. -/
theorem whileBelow_of_fixed {p : Nat} {s : σ} (hlt : p < bound) (hstep : step p s = .ok (p, s))
    (fuel : Nat) : whileBelow exhausted bound step fuel p s = .error exhausted := by
  induction fuel with
  | zero => rw [whileBelow, if_pos hlt]
  | succ fuel ih => rw [whileBelow_step hlt hstep, ih]

/-- Two loops over the same input stay side by side if their steps do. -/
theorem whileBelow_related {rel : σ → τ → Prop} {step' : Nat → τ → Except ε (Nat × τ)}
    (hstep : ∀ p s t, rel s t → Related (fun next next' => next.1 = next'.1 ∧ rel next.2 next'.2)
      (step p s) (step' p t)) (fuel p : Nat) {s : σ} {t : τ} (hrel : rel s t) :
    Related (fun last last' => last.1 = last'.1 ∧ rel last.2 last'.2)
      (whileBelow exhausted bound step fuel p s) (whileBelow exhausted bound step' fuel p t) := by
  induction fuel generalizing p s t with
  | zero =>
    unfold whileBelow
    split
    · exact rfl
    · exact ⟨rfl, hrel⟩
  | succ fuel ih =>
    unfold whileBelow
    split
    · have hone := hstep p s t hrel
      generalize step p s = first at hone ⊢
      generalize step' p t = second at hone ⊢
      rcases first with e | ⟨q, s'⟩ <;> rcases second with e' | ⟨q', t'⟩
      · exact hone
      · exact hone.elim
      · exact hone.elim
      · obtain ⟨heq, hrel'⟩ := hone
        subst heq
        exact ih q hrel'
    · exact ⟨rfl, hrel⟩

/-- The same position, and states that are related. -/
def Along (rel : σ → τ → Prop) (here : Nat × σ) (there : Nat × τ) : Prop :=
  here.1 = there.1 ∧ rel here.2 there.2

/-- **Simulation rule.** A loop each of whose turns follows the turn of another loop follows
    that loop to its end. -/
theorem whileBelow_follows {embed : ε' → ε} {exhausted' : ε'}
    (hexhausted : ∀ e, embed e = exhausted → e = exhausted') {rel : σ → τ → Prop}
    {step' : Nat → τ → Except ε' (Nat × τ)}
    (hstep : ∀ p s t, rel s t → Follows embed (Along rel) (step p s) (step' p t)) (fuel p : Nat)
    {s : σ} {t : τ} (hrel : rel s t) :
    Follows embed (Along rel) (whileBelow exhausted bound step fuel p s)
      (whileBelow exhausted' bound step' fuel p t) := by
  induction fuel generalizing p s t with
  | zero =>
    by_cases hlt : p < bound
    · rw [whileBelow, whileBelow, if_pos hlt, if_pos hlt]
      exact fun e he => congrArg Except.error (hexhausted e he).symm
    · rw [whileBelow_done (by omega), whileBelow_done (by omega)]
      exact ⟨_, rfl, rfl, hrel⟩
  | succ fuel ih =>
    by_cases hlt : p < bound
    · have hturn := hstep p s t hrel
      rcases hhere : step p s with e | ⟨p₁, s₁⟩ <;> rw [hhere] at hturn
      · rw [ScanLoop.whileBelow_error hlt hhere]
        exact fun e' he => ScanLoop.whileBelow_error hlt (hturn e' he)
      · obtain ⟨⟨_, t₁⟩, hthere, rfl, hrel₁⟩ := hturn
        rw [whileBelow_step hlt hhere, whileBelow_step hlt hthere]
        exact ih _ hrel₁
    · rw [whileBelow_done (by omega), whileBelow_done (by omega)]
      exact ⟨_, rfl, rfl, hrel⟩

end Concrete

/-! ### Larger budgets -/

/-- The second result is the first one, unless the first ran out of budget. -/
def Extends (exhausted : ε) (result larger : Except ε α) : Prop :=
  result = .error exhausted ∨ larger = result

theorem Extends.refl {exhausted : ε} (result : Except ε α) : Extends exhausted result result :=
  .inr rfl

theorem Extends.ok {exhausted : ε} {result larger : Except ε α} {a : α}
    (hextends : Extends exhausted result larger) (hok : result = .ok a) : larger = .ok a := by
  rcases hextends with hexhausted | heq
  · rw [hok] at hexhausted
    cases hexhausted
  · exact heq.trans hok

theorem Extends.bind {exhausted : ε} {result larger : Except ε α} {f f' : α → Except ε β}
    (hresult : Extends exhausted result larger) (hf : ∀ a, Extends exhausted (f a) (f' a)) :
    Extends exhausted (result >>= f) (larger >>= f') := by
  rcases hresult with rfl | rfl
  · exact .inl rfl
  · rcases larger with e | a
    · exact .refl _
    · exact hf a

/-- A loop with a larger budget, and with steps that have one, ends in the same way. -/
theorem whileBelow_extends {exhausted : ε} {bound : Nat} {step step' : Nat → σ → Except ε (Nat × σ)}
    (hstep : ∀ p s, Extends exhausted (step p s) (step' p s)) {fuel more : Nat}
    (hmore : fuel ≤ more) (p : Nat) (s : σ) :
    Extends exhausted (whileBelow exhausted bound step fuel p s)
      (whileBelow exhausted bound step' more p s) := by
  induction fuel generalizing more p s with
  | zero =>
    by_cases hlt : p < bound
    · exact .inl (by rw [whileBelow, if_pos hlt])
    · rw [whileBelow_done (by omega), whileBelow_done (by omega)]
      exact .refl _
  | succ fuel ih =>
    obtain ⟨more, rfl⟩ := Nat.exists_eq_add_of_le' (Nat.one_le_of_lt hmore)
    by_cases hlt : p < bound
    · rcases hturn : step p s with e | ⟨q, t⟩
      · rw [ScanLoop.whileBelow_error hlt hturn]
        refine (hturn ▸ hstep p s).imp id fun heq => ?_
        exact ScanLoop.whileBelow_error hlt heq
      · rw [whileBelow_step hlt hturn, whileBelow_step hlt ((hstep p s).ok hturn)]
        exact ih (by omega) q t
    · rw [whileBelow_done (by omega), whileBelow_done (by omega)]
      exact .refl _

/-- Where the loop gets to, a loop whose steps have a larger budget fails if its turn there
    does; its own budget has to cover the turns before. -/
theorem Reaches.whileBelow_error (exhausted : ε) {bound : Nat}
    {step : Nat → σ → Except ε (Nat × σ)} {before : Nat × σ} {p : Nat} {s : σ}
    (hreach : Reaches bound step before (p, s)) (hlt : p < bound) :
    ∃ enough, ∀ (step' : Nat → σ → Except ε (Nat × σ)) (e : ε) (fuel : Nat),
      (∀ p s, Extends exhausted (step p s) (step' p s)) → step' p s = .error e → enough ≤ fuel →
      whileBelow exhausted bound step' fuel before.1 before.2 = .error e := by
  induction hreach using Relation.ReflTransGen.head_induction_on with
  | refl =>
    refine ⟨1, fun step' e fuel _ hfails hfuel => ?_⟩
    obtain ⟨fuel, rfl⟩ := Nat.exists_eq_add_of_le' hfuel
    exact ScanLoop.whileBelow_error hlt hfails
  | head hturn _ ih =>
    obtain ⟨enough, ih⟩ := ih
    refine ⟨enough + 1, fun step' e fuel hextends hfails hfuel => ?_⟩
    obtain ⟨fuel, rfl⟩ := Nat.exists_eq_add_of_le' (Nat.le_of_add_left_le hfuel)
    rw [whileBelow_step hturn.1 ((hextends _ _).ok hturn.2)]
    exact ih step' e fuel hextends hfails (by omega)

/-! ### The abstract loop -/

/-- What an abstract step may answer instead of a result. -/
inductive ScanError (ε : Type u) where
  /-- a length read from the input exceeds what is left of it -/
  | overrun
  /-- the step fails with `e` -/
  | fault (e : ε)

/-- Apply `step` until the input is used up. -/
def drain (stuck : ε) (step : List α → σ → Except ε (List α × σ)) :
    Nat → List α → σ → Except ε σ
  | _, [], s => .ok s
  | 0, _ :: _, _ => .error stuck
  | fuel + 1, item :: rest, s =>
    match step (item :: rest) s with
    | .error e => .error e
    | .ok (rest', s') => drain stuck step fuel rest' s'

/-- `drain` with as many steps as there are items. -/
def drainAll (stuck : ε) (step : List α → σ → Except ε (List α × σ)) (input : List α)
    (s : σ) : Except ε σ :=
  drain stuck step input.length input s

/-- Every successful step consumes something. -/
def Shrinks (step : List α → σ → Except ε (List α × σ)) : Prop :=
  ∀ input s rest s', step input s = .ok (rest, s') → rest.length < input.length

/-- A successful step does not depend on what follows the part it consumes. -/
def Local (step : List α → σ → Except ε (List α × σ)) : Prop :=
  ∀ input s rest s' extra, step input s = .ok (rest, s') →
    step (input ++ extra) s = .ok (rest ++ extra, s')

section Abstract

variable {stuck : ε} {step : List α → σ → Except ε (List α × σ)}

@[simp] theorem drainAll_nil (s : σ) : drainAll stuck step [] s = .ok s := by
  simp [drainAll, drain]

/-- The step made to fail on empty input, where the loop does not call it. -/
def guarded (stuck : ε) (step : List α → σ → Except ε (List α × σ)) (input : List α) (s : σ) :
    Except ε (List α × σ) :=
  match input with
  | [] => .error stuck
  | item :: rest => step (item :: rest) s

theorem guarded_of_ne {input : List α} (hinput : input ≠ []) (s : σ) :
    guarded stuck step input s = step input s := by
  rcases input with _ | ⟨item, rest⟩
  · contradiction
  · rfl

theorem drainAll_guarded (input : List α) (s : σ) :
    drainAll stuck (guarded stuck step) input s = drainAll stuck step input s := by
  have hdrain : ∀ fuel input s, drain stuck (guarded stuck step) fuel input s =
      drain stuck step fuel input s := by
    intro fuel
    induction fuel with
    | zero => intro input s; rcases input with _ | ⟨item, rest⟩ <;> rfl
    | succ fuel ih =>
      intro input s
      rcases input with _ | ⟨item, rest⟩
      · rfl
      · simp only [drain, guarded, ih]
  exact hdrain input.length input s

/-- A budget beyond the length of the input changes nothing. -/
theorem drain_eq_drainAll (hshrinks : Shrinks step) (fuel : Nat) (input : List α) (s : σ)
    (hfuel : input.length ≤ fuel) :
    drain stuck step fuel input s = drainAll stuck step input s := by
  -- strong induction on the input: the budget only has to cover what is left
  induction hlen : input.length using Nat.strongRecOn generalizing fuel input s with
  | ind n ih =>
    cases input with
    | nil => cases fuel <;> simp [drain]
    | cons item rest =>
      cases fuel with
      | zero => simp at hfuel
      | succ fuel =>
        rw [drainAll, List.length_cons, drain, drain]
        rcases hstep : step (item :: rest) s with e | ⟨rest', s'⟩
        · rfl
        · have hless := hshrinks _ _ _ _ hstep
          simp only [List.length_cons] at hless hfuel hlen
          have hleft := ih rest'.length (by omega) fuel rest' s' (by omega) rfl
          have hright := ih rest'.length (by omega) rest.length rest' s' (by omega) rfl
          simp only [hleft, hright]

theorem drainAll_step (hshrinks : Shrinks step) {input rest : List α} {s s' : σ}
    (hinput : input ≠ []) (hstep : step input s = .ok (rest, s')) :
    drainAll stuck step input s = drainAll stuck step rest s' := by
  cases input with
  | nil => exact absurd rfl hinput
  | cons item tail =>
    have hless := hshrinks _ _ _ _ hstep
    rw [drainAll, List.length_cons, drain, hstep]
    exact drain_eq_drainAll hshrinks _ _ _ (by simpa using Nat.lt_succ_iff.mp hless)

theorem drainAll_error {input : List α} {s : σ} {e : ε} (hinput : input ≠ [])
    (hstep : step input s = .error e) : drainAll stuck step input s = .error e := by
  cases input with
  | nil => exact absurd rfl hinput
  | cons item tail => rw [drainAll, List.length_cons, drain, hstep]

/-- A loop over shrinking input ends in the ways its step ends. -/
theorem ends_drainAll {allowed : ε → Prop} (hshrinks : Shrinks step)
    (hstep : ∀ input s, input ≠ [] → Ends allowed (fun _ => True) (step input s)) (input : List α)
    (s : σ) : Ends allowed (fun _ => True) (drainAll stuck step input s) := by
  induction hlen : input.length using Nat.strongRecOn generalizing input s with
  | ind n ih =>
    rcases input with _ | ⟨item, tail⟩
    · rw [drainAll_nil]
      trivial
    · have hne : item :: tail ≠ [] := List.cons_ne_nil _ _
      rcases hhere : step (item :: tail) s with e | ⟨rest, s'⟩
      · rw [drainAll_error hne hhere]
        exact (hstep _ s hne).error hhere
      · have hless := hshrinks _ _ _ _ hhere
        rw [drainAll_step hshrinks hne hhere]
        exact ih rest.length (hlen ▸ hless) rest s' rfl

/-- Two loops agree if their steps agree on all inputs that are not longer. -/
theorem settled_drainAll {e : ε} (hstuck : stuck ≠ e) {step' : List α → σ → Except ε (List α × σ)}
    {input : List α} (hstep : ∀ part s, part ≠ [] → part.length ≤ input.length →
      Settled e (step part s) (step' part s))
    (hshorter : ∀ part s rest s', part ≠ [] → step part s = .ok (rest, s') →
      rest.length ≤ part.length) (s : σ) :
    Settled e (drainAll stuck step input s) (drainAll stuck step' input s) := by
  suffices haux : ∀ fuel part s, part.length ≤ input.length →
      Settled e (drain stuck step fuel part s) (drain stuck step' fuel part s) from
    haux input.length input s (Nat.le_refl _)
  intro fuel
  induction fuel with
  | zero =>
    intro part s hpart
    rcases part with _ | ⟨item, tail⟩
    · exact .rfl nofun
    · exact .rfl fun heq => hstuck (Except.error.inj heq)
  | succ fuel ih =>
    intro part s hpart
    rcases part with _ | ⟨item, tail⟩
    · exact .rfl nofun
    · have hne : item :: tail ≠ [] := List.cons_ne_nil _ _
      obtain ⟨hsame, hsettled⟩ := hstep _ s hne hpart
      simp only [drain, ← hsame]
      rcases hhere : step (item :: tail) s with other | ⟨rest, s'⟩
      · rw [hhere] at hsettled
        exact .rfl fun heq => hsettled (Except.error.inj heq ▸ rfl)
      · exact ih rest s' (Nat.le_trans (hshorter _ _ _ _ hne hhere) hpart)

/-- **Composition rule.** What a local step makes of a concatenation is what it makes
    of the second part from the state the first part led to. -/
theorem drainAll_append (hshrinks : Shrinks step) (hlocal : Local step) {input extra : List α}
    {s s' : σ} (hdrain : drainAll stuck step input s = .ok s') :
    drainAll stuck step (input ++ extra) s = drainAll stuck step extra s' := by
  induction hlen : input.length using Nat.strongRecOn generalizing input s with
  | ind n ih =>
    cases input with
    | nil =>
      rw [drainAll_nil] at hdrain
      cases hdrain
      rfl
    | cons item tail =>
      rcases hstep : step (item :: tail) s with e | ⟨rest, s₁⟩
      · rw [drainAll_error (by simp) hstep] at hdrain
        cases hdrain
      · rw [drainAll_step hshrinks (by simp) hstep] at hdrain
        have hless := hshrinks _ _ _ _ hstep
        rw [drainAll_step hshrinks (by simp) (hlocal _ _ _ _ extra hstep)]
        exact ih rest.length (by omega) hdrain rfl

/-- A block of the input that the loop, in a state that stands for `t`, works off as
    `action`, whatever follows it. -/
def Runs (stuck : ε) (step : List α → σ → Except ε (List α × σ)) (embed : τ → σ)
    (input : List α) (action : τ → Except ε τ) : Prop :=
  ∀ rest t, drainAll stuck step (input ++ rest) (embed t) =
    action t >>= fun t' => drainAll stuck step rest (embed t')

variable {embed : τ → σ}

theorem Runs.nil : Runs stuck step embed [] .ok := by
  intro rest t
  rfl

theorem Runs.append {left right : List α} {first second : τ → Except ε τ}
    (hleft : Runs stuck step embed left first) (hright : Runs stuck step embed right second) :
    Runs stuck step embed (left ++ right) fun t => first t >>= second := by
  intro rest t
  simp only [List.append_assoc, hleft (right ++ rest) t]
  rcases first t with e | t'
  · rfl
  · exact hright rest t'

theorem Runs.of_step (hshrinks : Shrinks step) {input : List α} {action : τ → Except ε τ}
    (hinput : input ≠ []) (hstep : ∀ rest t, step (input ++ rest) (embed t) =
      action t >>= fun t' => .ok (rest, embed t')) :
    Runs stuck step embed input action := by
  intro rest t
  have hne : input ++ rest ≠ [] := by simp [hinput]
  have hhere := hstep rest t
  rcases haction : action t with e | t' <;> rw [haction] at hhere
  · rw [drainAll_error hne hhere]
    rfl
  · rw [drainAll_step hshrinks hne hhere]
    rfl

theorem Runs.drainAll_eq {input : List α} {action : τ → Except ε τ}
    (hruns : Runs stuck step embed input action) (t : τ) :
    drainAll stuck step input (embed t) = action t >>= fun t' => .ok (embed t') := by
  have hall := hruns [] t
  simp only [List.append_nil, drainAll_nil] at hall
  exact hall

/-- **Uniformity rule.** If a step that succeeds from one state acts on every state, by an
    action of a class that is closed under composition, so does a loop that succeeds. -/
theorem drainAll_uniform (embed : τ → σ) (acts : (τ → Except ε τ) → Prop) (hnil : acts .ok)
    (happend : ∀ first second, acts first → acts second → acts fun t => first t >>= second)
    (hshrinks : Shrinks step)
    (hstep : ∀ input t rest s', step input (embed t) = .ok (rest, s') → ∃ action, acts action ∧
      ∀ t', step input (embed t') = action t' >>= fun t'' => .ok (rest, embed t''))
    {input : List α} {t : τ} {s : σ} (hdrain : drainAll stuck step input (embed t) = .ok s) :
    ∃ action, acts action ∧
      ∀ t', drainAll stuck step input (embed t') = action t' >>= fun t'' => .ok (embed t'') := by
  induction hlen : input.length using Nat.strongRecOn generalizing input t with
  | ind n ih =>
    by_cases hempty : input = []
    · subst hempty
      exact ⟨.ok, hnil, fun t' => drainAll_nil _⟩
    · rcases hfirst : step input (embed t) with e | ⟨rest, middle⟩
      · rw [drainAll_error hempty hfirst] at hdrain
        cases hdrain
      · obtain ⟨first, hacts, hact⟩ := hstep input t rest middle hfirst
        rw [drainAll_step hshrinks hempty hfirst] at hdrain
        -- the state after the step is again one that stands for something
        obtain ⟨t₁, -, hmiddle⟩ := bind_eq_ok.mp ((hact t).symm.trans hfirst)
        cases hmiddle
        obtain ⟨second, hacts', hrest⟩ := ih rest.length (by
          have hless := hshrinks _ _ _ _ hfirst
          omega) hdrain rfl
        refine ⟨_, happend first second hacts hacts', fun t' => ?_⟩
        have hhere := hact t'
        rcases haction : first t' with e | t''
        · rw [haction] at hhere
          rw [drainAll_error hempty hhere]
          rfl
        · rw [haction] at hhere
          rw [drainAll_step hshrinks hempty hhere]
          exact hrest t''

end Abstract

/-! ### Refinement -/

/-- The answer of a concrete step started at or after `low` agrees with the answer of
    an abstract step on the window below `stop`: same state and the pointer at what
    is left, or the same fault. After an `overrun` anything goes. -/
def Agrees (memory : Nat → β) (low stop : Nat) :
    Except (ScanError ε) (List β × σ) → Except ε (Nat × σ) → Prop
  | .ok (rest, s), result =>
    ∃ q, low ≤ q ∧ q ≤ stop ∧ window memory q stop = rest ∧ result = .ok (q, s)
  | .error (.fault e), result => result = .error e
  | .error .overrun, _ => True

theorem Agrees.mono {memory : Nat → β} {low low' : Nat}
    {answer : Except (ScanError ε) (List β × σ)} {result : Except ε (Nat × σ)}
    (hagrees : Agrees memory low stop answer result) (hle : low' ≤ low) :
    Agrees memory low' stop answer result := by
  rcases answer with (_ | e) | ⟨rest, s⟩
  · trivial
  · exact hagrees
  · obtain ⟨q, hq, hstop, hrest, hresult⟩ := hagrees
    exact ⟨q, Nat.le_trans hle hq, hstop, hrest, hresult⟩

/-- The concrete loop ends at the bound with the abstract state, or with its fault. -/
def AgreesAtEnd (stop : Nat) : Except (ScanError ε) σ → Except ε (Nat × σ) → Prop
  | .ok s, result => result = .ok (stop, s)
  | .error (.fault e), result => result = .error e
  | .error .overrun, _ => True

section Refinement

variable (exhausted : ε) {memory : Nat → β} {low : Nat} {concrete : Nat → σ → Except ε (Nat × σ)}
  {abstract : List β → σ → Except (ScanError ε) (List β × σ)} (hshrinks : Shrinks abstract)
  (hagrees : ∀ p s, low ≤ p → p < stop →
    Agrees memory (p + 1) stop (abstract (window memory p stop) s) (concrete p s))

include hshrinks hagrees

/-- In a turn the abstract step fails, and with it its loop, or both steps go on. -/
theorem drainAll_turn {p : Nat} (s : σ) (hlow : low ≤ p) (hlt : p < stop) :
    (∃ err, abstract (window memory p stop) s = .error err ∧
      drainAll .overrun abstract (window memory p stop) s = .error err) ∨
    ∃ q s', p < q ∧ q ≤ stop ∧ abstract (window memory p stop) s = .ok (window memory q stop, s') ∧
      concrete p s = .ok (q, s') ∧
      drainAll .overrun abstract (window memory p stop) s =
        drainAll .overrun abstract (window memory q stop) s' := by
  have hne : window memory p stop ≠ [] := by rw [window_cons memory hlt]; simp
  have hstep := hagrees p s hlow hlt
  rcases habs : abstract (window memory p stop) s with err | ⟨rest, s'⟩
  · exact .inl ⟨err, rfl, drainAll_error hne habs⟩
  · rw [habs] at hstep
    obtain ⟨q, hq, hqle, rfl, hconcrete⟩ := hstep
    exact .inr ⟨q, s', hq, hqle, rfl, hconcrete, drainAll_step hshrinks hne habs⟩

/-- **Refinement rule.** Steps that agree on every window make loops that agree. -/
theorem whileBelow_of_drain (fuel p : Nat) (s : σ) (hlow : low ≤ p) (hle : p ≤ stop)
    (hfuel : stop - p ≤ fuel) :
    AgreesAtEnd stop (drainAll .overrun abstract (window memory p stop) s)
      (whileBelow exhausted stop concrete fuel p s) := by
  induction fuel generalizing p s with
  | zero =>
    obtain rfl : p = stop := by omega
    rw [window_of_le memory (Nat.le_refl p), drainAll_nil, whileBelow_done (Nat.le_refl p)]
    rfl
  | succ fuel ih =>
    rcases Nat.lt_or_eq_of_le hle with hlt | rfl
    · rcases drainAll_turn hshrinks hagrees s hlow hlt with
        ⟨err, habs, hdrain⟩ | ⟨q, s', hq, hqle, -, hconcrete, hdrain⟩
      · rw [hdrain]
        cases err with
        | overrun => trivial
        | fault e =>
          have hstep := hagrees p s hlow hlt
          rw [habs] at hstep
          exact whileBelow_error hlt hstep
      · rw [hdrain, whileBelow_step hlt hconcrete]
        exact ih q s' (by omega) hqle (by omega)
    · rw [window_of_le memory (Nat.le_refl p), drainAll_nil, whileBelow_done (Nat.le_refl p)]
      rfl

/-- **Overrun rule.** If the abstract loop overruns, the concrete loop passes through a state
    in which the abstract step does. -/
theorem reaches_overrun {p : Nat} {s : σ} (hlow : low ≤ p)
    (hoverrun : drainAll .overrun abstract (window memory p stop) s = .error .overrun) :
    ∃ p' s', Reaches stop concrete (p, s) (p', s') ∧ low ≤ p' ∧ p' < stop ∧
      abstract (window memory p' stop) s' = .error .overrun := by
  induction hleft : stop - p using Nat.strongRecOn generalizing p s with
  | ind n ih =>
    by_cases hlt : p < stop
    · rcases drainAll_turn hshrinks hagrees s hlow hlt with
        ⟨err, habs, hdrain⟩ | ⟨q, s', hq, -, -, hconcrete, hdrain⟩
      · cases hdrain.symm.trans hoverrun
        exact ⟨p, s, .refl, hlow, hlt, habs⟩
      · obtain ⟨p', s'', hreaches, hfinal⟩ :=
          ih (stop - q) (by omega) (by omega) (hdrain.symm.trans hoverrun) rfl
        exact ⟨p', s'', .head ⟨hlt, hconcrete⟩ hreaches, hfinal⟩
    · rw [window_of_le memory (by omega), drainAll_nil] at hoverrun
      cases hoverrun

/-- **Passage rule.** Where the abstract loop gets through, its step succeeds in every state
    the concrete loop passes through. -/
theorem reaches_step_ok {before state : Nat × σ} (hreach : Reaches stop concrete before state)
    (hlt : state.1 < stop) (hlow : low ≤ before.1) {final : σ}
    (hdrain : drainAll .overrun abstract (window memory before.1 stop) before.2 = .ok final) :
    ∃ next, abstract (window memory state.1 stop) state.2 = .ok next := by
  induction hreach using Relation.ReflTransGen.head_induction_on with
  | refl =>
    rcases drainAll_turn hshrinks hagrees state.2 hlow hlt with
      ⟨err, -, hfails⟩ | ⟨q, s', -, -, habs, -⟩
    · cases hfails.symm.trans hdrain
    · exact ⟨_, habs⟩
  | @head before after hturn _ ih =>
    rcases drainAll_turn hshrinks hagrees before.2 hlow hturn.1 with
      ⟨err, -, hfails⟩ | ⟨q, s', hq, -, -, hconcrete, hrest⟩
    · cases hfails.symm.trans hdrain
    · cases Except.ok.inj (hturn.2.symm.trans hconcrete)
      exact ih (by simp only; omega) (hrest.symm.trans hdrain)

end Refinement

end QuicproAsync.ScanLoop

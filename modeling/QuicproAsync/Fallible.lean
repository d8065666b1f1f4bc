import Mathlib.Data.List.Basic

/-!
# Computations that may fail

Rules for `Except`. `Ends allowed post result` says that `result` is a value that
satisfies `post` or one of the allowed failures; the rules carry it through a bind and
through a fold over a list. Taking everything as allowed gives partial correctness,
taking nothing as allowed gives success, and taking all failures but one shows that
this one is never reached. `Related` compares two computations that go side by side, and
`runFrom` runs one that also writes to a state.
-/

namespace QuicproAsync.Fallible

theorem bind_eq_ok {result : Except ε α} {next : α → Except ε β} {final : β} :
    (result >>= next) = .ok final ↔ ∃ value, result = .ok value ∧ next value = .ok final := by
  cases result with
  | error e => simp [bind, Except.bind]
  | ok value => simp [bind, Except.bind]

/-- Two computations in a row succeed if and only if each of them does. -/
theorem exists_join_eq_ok {first : Except ε α} {second : Except ε β} (join : α → β → γ) :
    (∃ final, (first >>= fun left => second >>= fun right => .ok (join left right)) =
      (.ok final : Except ε γ)) ↔ (∃ left, first = .ok left) ∧ ∃ right, second = .ok right := by
  constructor
  · rintro ⟨final, hok⟩
    obtain ⟨left, hleft, hok⟩ := bind_eq_ok.mp hok
    obtain ⟨right, hright, -⟩ := bind_eq_ok.mp hok
    exact ⟨⟨left, hleft⟩, right, hright⟩
  · rintro ⟨⟨left, hleft⟩, right, hright⟩
    exact ⟨join left right, bind_eq_ok.mpr ⟨left, hleft, bind_eq_ok.mpr ⟨right, hright, rfl⟩⟩⟩

theorem bind_eq_error {result : Except ε α} {next : α → Except ε β} {e : ε} :
    (result >>= next) = .error e ↔
      result = .error e ∨ ∃ value, result = .ok value ∧ next value = .error e := by
  cases result with
  | error e' => simp [bind, Except.bind]
  | ok value => simp [bind, Except.bind]

def Ends (allowed : ε → Prop) (post : α → Prop) : Except ε α → Prop
  | .ok value => post value
  | .error e => allowed e

variable {allowed : ε → Prop}

theorem Ends.ok {post : α → Prop} {result : Except ε α} {value : α}
    (hends : Ends allowed post result) (hvalue : result = .ok value) : post value := by
  subst hvalue
  exact hends

theorem Ends.error {post : α → Prop} {result : Except ε α} {e : ε}
    (hends : Ends allowed post result) (herror : result = .error e) : allowed e := by
  subst herror
  exact hends

theorem ends_ne_iff {result : Except ε α} {e : ε} :
    Ends (fun error => error ≠ e) (fun _ => True) result ↔ result ≠ .error e := by
  rcases result with error | value
  · simp [Ends]
  · simp [Ends]

theorem Ends.mono {post post' : α → Prop} {result : Except ε α}
    (hends : Ends allowed post result) (himp : ∀ value, post value → post' value) :
    Ends allowed post' result := by
  cases result with
  | error e => exact hends
  | ok value => exact himp value hends

/-- The value that satisfies the postcondition is the one that was computed. -/
theorem Ends.with_eq {post : α → Prop} {result : Except ε α} (hends : Ends allowed post result) :
    Ends allowed (fun value => post value ∧ result = .ok value) result := by
  cases result with
  | error e => exact hends
  | ok value => exact ⟨hends, rfl⟩

theorem Ends.weaken {allowed' : ε → Prop} {post : α → Prop} {result : Except ε α}
    (hends : Ends allowed post result) (himp : ∀ e, allowed e → allowed' e) :
    Ends allowed' post result := by
  cases result with
  | error e => exact himp e hends
  | ok value => exact hends

theorem Ends.bind {post : α → Prop} {post' : β → Prop} {result : Except ε α}
    {next : α → Except ε β} (hends : Ends allowed post result)
    (hnext : ∀ value, post value → Ends allowed post' (next value)) :
    Ends allowed post' (result >>= next) := by
  cases result with
  | error e => exact hends
  | ok value => exact hnext value hends

/-- **Fold rule.** The invariant speaks of the items folded so far and of the state. -/
theorem Ends.foldlM (inv : List α → σ → Prop) {step : σ → α → Except ε σ}
    (hstep : ∀ before item s, inv before s → Ends allowed (inv (before ++ [item])) (step s item))
    (items : List α) {s : σ} (hinv : inv [] s) :
    Ends allowed (inv items) (items.foldlM step s) := by
  suffices haux : ∀ rest before s, inv before s →
      Ends allowed (inv (before ++ rest)) (rest.foldlM step s) from haux items [] s hinv
  intro rest
  induction rest with
  | nil =>
    intro before s hinv
    rw [List.append_nil]
    exact hinv
  | cons item rest ih =>
    intro before s hinv
    rw [List.foldlM_cons]
    apply Ends.bind (hstep before item s hinv)
    intro s' hinv'
    have hrest := ih (before ++ [item]) s' hinv'
    rwa [List.append_assoc, List.singleton_append] at hrest

/-- **Fold rule**, for an invariant of the state alone. -/
theorem Ends.foldlM_mem (inv : σ → Prop) {step : σ → α → Except ε σ} {items : List α}
    (hstep : ∀ item ∈ items, ∀ s, inv s → Ends allowed inv (step s item)) {s : σ} (hinv : inv s) :
    Ends allowed inv (items.foldlM step s) := by
  induction items generalizing s with
  | nil => exact hinv
  | cons item rest ih =>
    obtain ⟨hitem, hrest⟩ := List.forall_mem_cons.mp hstep
    rw [List.foldlM_cons]
    exact (hitem s hinv).bind fun s' hinv' => ih hrest hinv'

theorem Ends.mapM {compute : α → Except ε β} {items : List α}
    (hitems : ∀ item ∈ items, Ends allowed (fun _ => True) (compute item)) :
    Ends allowed (fun _ => True) (items.mapM compute) := by
  induction items with
  | nil => trivial
  | cons item rest ih =>
    obtain ⟨hitem, hrest⟩ := List.forall_mem_cons.mp hitems
    rw [List.mapM_cons]
    refine hitem.bind fun value _ => ?_
    exact (ih hrest).bind fun values _ => trivial

theorem foldlM_ok (items : List α) (s : σ) :
    items.foldlM (fun s _ => (.ok s : Except ε σ)) s = .ok s := by
  induction items with
  | nil => rfl
  | cons item rest ih => exact ih

/-- Two folds agree if their steps agree in the states that are reached; the invariant speaks of
    the items folded so far. -/
theorem foldlM_congr (inv : List α → σ → Prop) {step step' : σ → α → Except ε σ} {items : List α}
    (hstep : ∀ before item after s, items = before ++ item :: after → inv before s →
      step s item = step' s item ∧
        ∀ s', step' s item = .ok s' → inv (before ++ [item]) s') {s : σ} (hinv : inv [] s) :
    items.foldlM step s = items.foldlM step' s ∧
      ∀ s', items.foldlM step' s = .ok s' → inv items s' := by
  suffices haux : ∀ rest before s, items = before ++ rest → inv before s →
      rest.foldlM step s = rest.foldlM step' s ∧
        ∀ s', rest.foldlM step' s = .ok s' → inv items s' from haux items [] s rfl hinv
  intro rest
  induction rest with
  | nil =>
    intro before s hitems hinv
    rw [List.append_nil] at hitems
    exact ⟨rfl, fun s' hs' => Except.ok.inj hs' ▸ hitems ▸ hinv⟩
  | cons item rest ih =>
    intro before s hitems hinv
    obtain ⟨hsame, hnext⟩ := hstep before item rest s hitems hinv
    rw [List.foldlM_cons, List.foldlM_cons, hsame]
    rcases hstep' : step' s item with e | s'
    · exact ⟨rfl, nofun⟩
    · exact ih (before ++ [item]) s' (by rw [hitems]; simp) (hnext s' hstep')

/-- Computing the values one by one and storing each at once is computing them all first, if
    storing does not fail. -/
theorem foldlM_store {compute : α → Except ε β} {store : σ → β → Except ε σ} (inv : σ → Prop)
    (hstore : ∀ s value, inv s → ∃ s', store s value = .ok s' ∧ inv s') (items : List α) {s : σ}
    (hinv : inv s) :
    items.foldlM (fun s item => compute item >>= store s) s =
      items.mapM compute >>= fun values => values.foldlM store s := by
  induction items generalizing s with
  | nil => rfl
  | cons item rest ih =>
    rw [List.foldlM_cons, List.mapM_cons]
    rcases compute item with e | value
    · rfl
    · obtain ⟨s', hs', hinv'⟩ := hstore s value hinv
      have hfirst : (Except.ok value >>= store s) = .ok s' := hs'
      have hlast : ∀ values, (value :: values).foldlM store s = values.foldlM store s' := by
        intro values
        rw [List.foldlM_cons, hs']
        rfl
      rw [hfirst]
      refine (ih hinv').trans ?_
      rcases rest.mapM compute with e | values
      · rfl
      · exact (hlast values).symm

/-! ### Two computations side by side -/

/-- The first computation does what the second does, unless it ends with a failure of its own:
    one that does not come from the failures of the second. -/
def Follows (embed : ε → ε') (rel : α → β → Prop) : Except ε' α → Except ε β → Prop
  | .ok value, result => ∃ value', result = .ok value' ∧ rel value value'
  | .error e', result => ∀ e, embed e = e' → result = .error e

section

variable {embed : ε → ε'} {rel : α → β → Prop} {rel' : γ → δ → Prop}

theorem Follows.bind {result : Except ε' α} {result' : Except ε β} {next : α → Except ε' γ}
    {next' : β → Except ε δ} (hresult : Follows embed rel result result')
    (hnext : ∀ value value', rel value value' → Follows embed rel' (next value) (next' value')) :
    Follows embed rel' (result >>= next) (result' >>= next') := by
  rcases result with e' | value
  · intro e he
    rw [hresult e he]
    rfl
  · obtain ⟨value', rfl, hrel⟩ := hresult
    exact hnext value value' hrel

theorem Follows.foldlM {step : α → γ → Except ε' α} {step' : β → γ → Except ε β}
    (hstep : ∀ item value value', rel value value' →
      Follows embed rel (step value item) (step' value' item))
    (items : List γ) {value : α} {value' : β} (hrel : rel value value') :
    Follows embed rel (items.foldlM step value) (items.foldlM step' value') := by
  induction items generalizing value value' with
  | nil => exact ⟨value', rfl, hrel⟩
  | cons item rest ih =>
    rw [List.foldlM_cons, List.foldlM_cons]
    exact (hstep item value value' hrel).bind fun _ _ => ih

end

/-- Both fail alike, or both succeed with related values. -/
def Related (rel : α → β → Prop) : Except ε α → Except ε β → Prop
  | .ok value, .ok value' => rel value value'
  | .error e, .error e' => e = e'
  | _, _ => False

section

variable {rel : α → β → Prop} {rel' : γ → δ → Prop}

theorem Related.bind {result : Except ε α} {result' : Except ε β} {next : α → Except ε γ}
    {next' : β → Except ε δ} (hrelated : Related rel result result')
    (hnext : ∀ value value', rel value value' → Related rel' (next value) (next' value')) :
    Related rel' (result >>= next) (result' >>= next') := by
  rcases result with e | value <;> rcases result' with e' | value'
  · exact hrelated
  · exact hrelated.elim
  · exact hrelated.elim
  · exact hnext value value' hrelated

theorem Related.foldlM {step : α → σ → Except ε α} {step' : β → σ → Except ε β} {items : List σ}
    (hstep : ∀ item ∈ items, ∀ value value', rel value value' →
      Related rel (step value item) (step' value' item)) {value : α} {value' : β}
    (hrel : rel value value') :
    Related rel (items.foldlM step value) (items.foldlM step' value') := by
  induction items generalizing value value' with
  | nil => exact hrel
  | cons item rest ih =>
    obtain ⟨hfirst, hrest⟩ := List.forall_mem_cons.mp hstep
    rw [List.foldlM_cons, List.foldlM_cons]
    exact (hfirst value value' hrel).bind fun _ _ => ih hrest

end

/-- Both give the same, and it is not the given failure. -/
def Settled (e : ε) (result result' : Except ε α) : Prop := result = result' ∧ result ≠ .error e

theorem Settled.rfl {e : ε} {result : Except ε α} (hne : result ≠ .error e) :
    Settled e result result := ⟨.refl result, hne⟩

theorem Settled.bind {e : ε} {result result' : Except ε α} {next next' : α → Except ε β}
    (hsettled : Settled e result result')
    (hnext : ∀ value, result = .ok value → Settled e (next value) (next' value)) :
    Settled e (result >>= next) (result' >>= next') := by
  obtain ⟨rfl, hne⟩ := hsettled
  rcases result with other | value
  · exact ⟨.refl _, fun heq => hne (Except.error.inj heq ▸ .refl _)⟩
  · exact hnext value (.refl _)

/-! ### Failing in a state -/

section

variable {σ ε α β : Type}

/-- What a computation answers from a state, and the state it leaves: a failure does not take back
    what was written before it. -/
def runFrom (computation : ExceptT ε (StateM σ) α) (s : σ) : Except ε α × σ :=
  computation.run.run s

theorem runFrom_get (s : σ) : runFrom (get : ExceptT ε (StateM σ) σ) s = (.ok s, s) := rfl

theorem runFrom_ofExcept (result : Except ε α) (s : σ) :
    runFrom (ofExcept result : ExceptT ε (StateM σ) α) s = (result, s) := by
  cases result <;> rfl

theorem runFrom_bind_ok {computation : ExceptT ε (StateM σ) α} {s s' : σ} {value : α}
    (hrun : runFrom computation s = (.ok value, s')) (next : α → ExceptT ε (StateM σ) β) :
    runFrom (computation >>= next) s = runFrom (next value) s' := by
  change StateT.run (ExceptT.run computation) s = _ at hrun
  simp only [runFrom, ExceptT.run_bind, StateT.run_bind]
  rw [hrun]
  rfl

theorem runFrom_bind_error {computation : ExceptT ε (StateM σ) α} {s s' : σ} {e : ε}
    (hrun : runFrom computation s = (.error e, s')) (next : α → ExceptT ε (StateM σ) β) :
    runFrom (computation >>= next) s = (.error e, s') := by
  change StateT.run (ExceptT.run computation) s = _ at hrun
  simp only [runFrom, ExceptT.run_bind, StateT.run_bind]
  rw [hrun]
  rfl

/-- A loop that only looks at the state. -/
theorem runFrom_foldlM (step : σ → β → α → Except ε β) (items : List α) (built : β) (s : σ) :
    runFrom (items.foldlM (fun built item => do
      let s ← get
      ofExcept (step s built item) : β → α → ExceptT ε (StateM σ) β) built) s =
      (items.foldlM (step s) built, s) := by
  induction items generalizing built with
  | nil => rfl
  | cons item rest ih =>
    rw [List.foldlM_cons, List.foldlM_cons]
    have hfirst : runFrom (do
        let s ← get
        ofExcept (step s built item) : ExceptT ε (StateM σ) β) s = (step s built item, s) := by
      rw [runFrom_bind_ok (runFrom_get s), runFrom_ofExcept]
    rcases hstep : step s built item with e | next
    · rw [hstep] at hfirst
      rw [runFrom_bind_error hfirst]
      rfl
    · rw [hstep] at hfirst
      rw [runFrom_bind_ok hfirst]
      exact ih next

end

end QuicproAsync.Fallible

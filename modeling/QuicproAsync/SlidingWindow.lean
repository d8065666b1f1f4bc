import Mathlib.Data.List.Chain

/-!
# Counting in a sliding window

A limiter that keeps one counter and the time of the last attempt: the counter is reset
when the last attempt is more than a span ago, and is increased by every attempt. `Counts`
is what the counter means: it bounds the number of attempts that lie within the span of
the last one. From that no window of the span ever holds more attempts than the limit
that each of them was checked against.

`Burst` is the other direction: a count stands for as many attempts, each at most the span
after the one before. The first and the last of them can lie a whole span for each gap
apart, so a high count does not mean that a window of one span was ever that full.
-/

namespace QuicproAsync.SlidingWindow

/-- The first and the last of these times lie at most `span` apart. -/
def Within (span : Int) (window : List Int) : Prop :=
  ∀ first ∈ window.head?, ∀ last ∈ window.getLast?, last - first ≤ span

/-- No selection of the times that fits into the span has more than `limit` elements. -/
def Limited (span limit : Int) (times : List Int) : Prop :=
  ∀ window : List Int, window.Sublist times → Within span window → (window.length : Int) ≤ limit

/-- The counter bounds how many of the times lie within `span` of the last one. -/
structure Counts (span : Int) (times : List Int) (last count : Int) : Prop where
  latest : ∀ time ∈ times, time ≤ last
  bound : ∀ window : List Int, window.Sublist times →
    (∀ first ∈ window.head?, last - first ≤ span) → (window.length : Int) ≤ count

/-- The last `count` of the times follow each other at most `span` apart, up to `last`. -/
def Burst (span : Int) (times : List Int) (last count : Int) : Prop :=
  ∃ older recent : List Int, times = older ++ recent ∧ (recent.length : Int) = count ∧
    recent.IsChain (fun earlier later => later - earlier ≤ span) ∧
    ∀ newest ∈ recent.getLast?, newest = last

variable {span limit last now count : Int} {times : List Int}

theorem limited_nil (hlimit : 0 ≤ limit) : Limited span limit [] := by
  intro window hwindow _
  rw [List.sublist_nil.mp hwindow]
  exact hlimit

theorem counts_nil : Counts span [] last 0 := by
  refine ⟨nofun, ?_⟩
  intro window hwindow _
  rw [List.sublist_nil.mp hwindow]
  exact Int.le_refl 0

/-- The counter after an attempt still counts. -/
theorem Counts.tick (hcounts : Counts span times last count) (hlater : last ≤ now) :
    Counts span (times ++ [now]) now ((if span < now - last then 0 else count) + 1) := by
  constructor
  · intro time htime
    rcases List.mem_append.mp htime with hold | hnew
    · exact Int.le_trans (hcounts.latest time hold) hlater
    · exact Int.le_of_eq (List.mem_singleton.mp hnew)
  · intro window hwindow hfirst
    obtain ⟨older, newest, rfl, holder, hnewest⟩ := List.sublist_append_iff.mp hwindow
    have hone : newest.length ≤ 1 := hnewest.length_le
    -- An older attempt in the window means that the counter has not been reset.
    have hcount : (older.length : Int) ≤ if span < now - last then 0 else count := by
      rcases older with _ | ⟨first, rest⟩
      · have hzero := hcounts.bound [] (List.nil_sublist times) nofun
        split
        · exact Int.le_refl 0
        · exact hzero
      · have hspan : now - first ≤ span := hfirst first rfl
        have hbefore := hcounts.latest first (holder.subset List.mem_cons_self)
        rw [if_neg (by omega)]
        refine hcounts.bound (first :: rest) holder ?_
        intro same hsame
        cases hsame
        omega
    rw [List.length_append]
    omega

/-- An attempt whose count is within the limit keeps every window within it. -/
theorem Limited.tick (hlimited : Limited span limit times)
    (hcounts : Counts span (times ++ [now]) now count) (hcount : count ≤ limit) :
    Limited span limit (times ++ [now]) := by
  intro window hwindow hwithin
  obtain ⟨older, newest, rfl, holder, hnewest⟩ := List.sublist_append_iff.mp hwindow
  rcases List.sublist_singleton.mp hnewest with rfl | rfl
  · rw [List.append_nil] at hwithin ⊢
    exact hlimited older holder hwithin
  · refine Int.le_trans (hcounts.bound _ hwindow ?_) hcount
    intro first hfirst
    exact hwithin first hfirst now List.getLast?_concat

/-! ### Bursts -/

theorem burst_nil : Burst span times last 0 :=
  ⟨times, [], (List.append_nil times).symm, rfl, List.isChain_nil, nofun⟩

/-- The burst goes on with an attempt that comes soon enough, and starts again with one that
    does not. -/
theorem Burst.tick (hburst : Burst span times last count) (now : Int) :
    Burst span (times ++ [now]) now ((if span < now - last then 0 else count) + 1) := by
  by_cases hlate : span < now - last
  · rw [if_pos hlate]
    refine ⟨times, [now], rfl, rfl, List.isChain_singleton now, ?_⟩
    intro newest hnewest
    exact (Option.some.inj hnewest).symm
  · rw [if_neg hlate]
    obtain ⟨older, recent, rfl, rfl, hchain, hlast⟩ := hburst
    refine ⟨older, recent ++ [now], List.append_assoc _ _ _, ?_, ?_, ?_⟩
    · rw [List.length_append]
      rfl
    · rw [List.isChain_append]
      refine ⟨hchain, List.isChain_singleton now, ?_⟩
      intro newest hnewest first hfirst
      rw [hlast newest hnewest, ← Option.some.inj hfirst]
      exact Int.not_lt.mp hlate
    · intro newest hnewest
      rw [List.getLast?_concat] at hnewest
      exact (Option.some.inj hnewest).symm

/-- From the first to the last of a chain there is one gap for each element but the first. -/
theorem chain_span {first : Int} {rest : List Int}
    (hchain : (first :: rest).IsChain fun earlier later => later - earlier ≤ span) :
    ∀ final ∈ (first :: rest).getLast?, final - first ≤ rest.length * span := by
  induction rest generalizing first with
  | nil =>
    intro final hfinal
    rw [← Option.some.inj hfinal]
    simp
  | cons second rest ih =>
    intro final hfinal
    obtain ⟨hgap, htail⟩ := List.isChain_cons_cons.mp hchain
    rw [List.getLast?_cons_cons] at hfinal
    have hrest := ih htail final hfinal
    rw [List.length_cons, Int.natCast_succ, Int.add_mul, Int.one_mul]
    omega

/-- A burst of `count + 1` attempts fits into the span if `count` gaps do. -/
theorem Burst.window (hburst : Burst span times last (count + 1)) (hfits : count * span ≤ span) :
    ∃ window : List Int, window.Sublist times ∧ Within span window ∧
      (window.length : Int) = count + 1 := by
  obtain ⟨older, recent, rfl, hlength, hchain, -⟩ := hburst
  refine ⟨recent, List.sublist_append_right older recent, ?_, hlength⟩
  intro first hfirst final hfinal
  rcases recent with _ | ⟨head, rest⟩
  · cases hfirst
  · cases hfirst
    rw [List.length_cons, Int.natCast_succ] at hlength
    have hgaps : (rest.length : Int) = count := by omega
    exact Int.le_trans (chain_span hchain final hfinal) (hgaps ▸ hfits)

end QuicproAsync.SlidingWindow

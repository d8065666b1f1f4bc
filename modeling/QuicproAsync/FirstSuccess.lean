import Mathlib.Data.List.Basic

/-!
# The first attempt that succeeds

A loop tries the items of a list one after the other and stops at the first that succeeds. Each
attempt may also leave reports behind, whether it succeeds or not, and they add up.
-/

namespace QuicproAsync.FirstSuccess

variable {attempt : α → Bool × List ρ}

/-- The first item that succeeds, and the reports of all that were tried. -/
def search (attempt : α → Bool × List ρ) : List α → Option α × List ρ
  | [] => (none, [])
  | item :: rest =>
    if (attempt item).1 then (some item, (attempt item).2)
    else ((search attempt rest).1, (attempt item).2 ++ (search attempt rest).2)

/-- The items that were tried in vain. -/
def failed (attempt : α → Bool × List ρ) (items : List α) : List α :=
  items.takeWhile fun item => !(attempt item).1

theorem search_cons_success {item : α} (hsuccess : (attempt item).1 = true) (rest : List α) :
    search attempt (item :: rest) = (some item, (attempt item).2) := by
  rw [search, if_pos hsuccess]

theorem search_cons_failure {item : α} (hfailure : (attempt item).1 = false) (rest : List α) :
    search attempt (item :: rest) =
      ((search attempt rest).1, (attempt item).2 ++ (search attempt rest).2) := by
  rw [search, if_neg (by simp [hfailure])]

/-- What is found is the first item that succeeds. -/
theorem search_fst (items : List α) :
    (search attempt items).1 = items.find? fun item => (attempt item).1 := by
  induction items with
  | nil => rfl
  | cons item rest ih =>
    cases hitem : (attempt item).1 with
    | true => rw [search_cons_success hitem, List.find?_cons, hitem]
    | false => rw [search_cons_failure hitem, List.find?_cons, hitem, ih]

theorem isSome_search {items : List α} :
    (search attempt items).1.isSome ↔ ∃ item ∈ items, (attempt item).1 = true := by
  induction items with
  | nil => simp [search]
  | cons item rest ih =>
    cases hitem : (attempt item).1 with
    | true => simp [search_cons_success hitem, hitem]
    | false => simp [search_cons_failure hitem, hitem, ih]

/-- If no success leaves a report, there are none if and only if none of the items that were tried
    in vain has left one. -/
theorem reports_eq_nil_iff {items : List α}
    (hsilent : ∀ item ∈ items, (attempt item).1 = true → (attempt item).2 = []) :
    (search attempt items).2 = [] ↔ ∀ item ∈ failed attempt items, (attempt item).2 = [] := by
  induction items with
  | nil => simp [search, failed]
  | cons item rest ih =>
    have hrest := ih fun other hother => hsilent other (List.mem_cons_of_mem _ hother)
    cases hitem : (attempt item).1 with
    | true =>
      have hnone := hsilent item List.mem_cons_self hitem
      simp [search_cons_success hitem, failed, hitem, hnone]
    | false =>
      have hfailed : failed attempt (item :: rest) = item :: failed attempt rest :=
        List.takeWhile_cons_of_pos (by rw [hitem]; rfl)
      rw [search_cons_failure hitem, List.append_eq_nil_iff, hrest, hfailed,
        List.forall_mem_cons]

/-- A second list is searched only if nothing in the first succeeds. -/
theorem search_append (first second : List α) :
    search attempt (first ++ second) =
      match search attempt first with
      | (some item, reports) => (some item, reports)
      | (none, reports) =>
        ((search attempt second).1, reports ++ (search attempt second).2) := by
  induction first with
  | nil => rfl
  | cons item rest ih =>
    rw [List.cons_append]
    cases hitem : (attempt item).1 with
    | true => rw [search_cons_success hitem, search_cons_success hitem]
    | false =>
      rw [search_cons_failure hitem, search_cons_failure hitem, ih]
      cases search attempt rest with
      | mk found reports => cases found <;> simp

end QuicproAsync.FirstSuccess
